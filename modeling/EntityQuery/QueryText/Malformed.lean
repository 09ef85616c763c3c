import EntityQuery.QueryText.Token
/-! Why a query is not well formed. -/
namespace EntityQuery.QueryText

inductive Expected where
  | keyword (word : String)
  | closing
  | aliasName | entityName | path | operand | comparison
deriving DecidableEq

def Expected.text : Expected → String
  | .keyword w => "'" ++ w ++ "'"
  | .closing => "')'"
  | .aliasName => "alias"
  | .entityName => "entity name"
  | .path => "path"
  | .operand => "operand"
  | .comparison => "comparison operator"

inductive Malformed where
  | unterminatedString
  | emptyParameterName
  | unexpectedCharacter (c : Char)
  | invalidNumber (lexeme : String)
  /-- The token in place of what was expected; none at the end of the text. -/
  | expected (what : Expected) (found : Option Token)
  | joinInSource
  | attributeSelected
  | duplicateAlias (aliasName : String)
  | trailing (token : Token)
  | noSource
  | unknownAlias (aliasName : String)
  /-- A pattern that takes more bytes than the limit. -/
  | patternTooLarge (limit : Nat)
  /-- A cause in words of its own. -/
  | described (reason : String)
deriving DecidableEq

def Malformed.message : Malformed → String
  | .unterminatedString => "unterminated string literal"
  | .emptyParameterName => "empty parameter name"
  | .unexpectedCharacter c => "unexpected character '" ++ c.toString ++ "'"
  | .invalidNumber lexeme => "invalid number '" ++ lexeme ++ "'"
  | .expected what (some t) => "expected " ++ what.text ++ ", found " ++ t.inspect
  | .expected what none => "expected " ++ what.text ++ ", found end of query"
  | .joinInSource => "joins are not supported"
  | .attributeSelected => "only entity projections are supported"
  | .duplicateAlias a => "duplicate alias '" ++ a ++ "'"
  | .trailing t => "unexpected trailing " ++ t.inspect
  | .noSource => "query has no source"
  | .unknownAlias a => "unknown alias '" ++ a ++ "'"
  | .patternTooLarge limit =>
    "Compiled regex exceeds size limit of " ++ toString limit ++ " bytes."
  | .described reason => reason

end EntityQuery.QueryText
