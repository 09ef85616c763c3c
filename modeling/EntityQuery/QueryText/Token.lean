import EntityQuery.Criteria.Predicate
import EntityQuery.Text.Inspect
import EntityQuery.Text.Fold
/-! Tokens of query text. -/
namespace EntityQuery.QueryText
open Criteria

inductive Symbol where
  | opening | closing | comma
  | comparison (op : Comparison)
deriving DecidableEq

def Symbol.text : Symbol → String
  | .opening => "("
  | .closing => ")"
  | .comma => ","
  | .comparison op => op.symbol

inductive Token where
  /-- A keyword, an alias, or an alias with attributes behind dots. -/
  | word (text : String)
  | number (value : Number)
  | quoted (text : String)
  | parameter (name : String)
  | symbol (symbol : Symbol)
deriving DecidableEq

namespace Token

def inspect : Token → String
  | .word s => Text.inspectCase "Ident" (Text.inspect s)
  | .number n => Text.inspectCase "Number" (Text.inspectCase "Number" n.text)
  | .quoted s => Text.inspectCase "Str" (Text.inspect s)
  | .parameter s => Text.inspectCase "Param" (Text.inspect s)
  | .symbol s => Text.inspectCase "Symbol" (Text.inspect s.text)

def isKeyword (keyword : String) : Token → Bool
  | .word s => Text.foldCase s == keyword
  | _ => false

theorem isKeyword_iff {keyword : String} {t : Token} :
    t.isKeyword keyword = true ↔ ∃ s, t = .word s ∧ Text.foldCase s = keyword := by
  cases t <;> simp [isKeyword]

def parameter? : Token → Option String
  | .parameter name => some name
  | _ => none

end Token

/-- Words that are neither aliases nor paths. -/
def reserved : List String := [
  "select", "from", "where", "group", "order", "by", "and", "or", "not", "as", "having", "join",
  "on", "asc", "desc", "distinct", "count", "like", "is", "null", "true", "false"]

def isReserved (word : String) : Bool := Text.isOneOf reserved word

end EntityQuery.QueryText
