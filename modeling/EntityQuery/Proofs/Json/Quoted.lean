import EntityQuery.Json.Escape
import EntityQuery.Json.Reader
/-! Text that is written as a JSON string is read back, and an object whose members are such
strings is read with its members as they were written, in their order. -/
namespace EntityQuery.Json

/-- What stands for a character in a string: an escape of one letter, the number of a control, or
the character itself. -/
inductive Escapes : Char → List Char → Prop where
  | letter {e : Char} (h : e ∈ ['"', '\\', 'b', 'f', 'n', 'r', 't']) :
    Escapes (unescapeChar e) ['\\', e]
  | control {c : Char} (h : c.toNat < 32) :
    Escapes c ['\\', 'u', '0', '0', hexDigit (c.toNat / 16), hexDigit (c.toNat % 16)]
  | plain {c : Char} (hquote : c ≠ '"') (hslash : c ≠ '\\') (h : 32 ≤ c.toNat) : Escapes c [c]

theorem escapes_escapeChar (c : Char) : Escapes c (escapeChar c) := by
  unfold escapeChar
  split
  · subst c
    exact .letter (e := '"') (by decide)
  split
  · subst c
    exact .letter (e := '\\') (by decide)
  split
  · subst c
    exact .letter (e := 'b') (by decide)
  split
  · subst c
    exact .letter (e := 'f') (by decide)
  split
  · subst c
    exact .letter (e := 'n') (by decide)
  split
  · subst c
    exact .letter (e := 'r') (by decide)
  split
  · subst c
    exact .letter (e := 't') (by decide)
  split
  · exact .control ‹_›
  · exact .plain ‹_› ‹_› (by omega)

theorem isHexDigit_hexDigit : ∀ n < 16, isHexDigit (hexDigit n) = true := by decide

theorem unit_control : ∀ n < 32, unit '0' '0' (hexDigit (n / 16)) (hexDigit (n % 16)) = n := by
  decide

def NoControls (cs : List Char) : Prop := ∀ c ∈ cs, 32 ≤ c.toNat

instance : DecidablePred NoControls := fun cs => List.decidableBAll _ cs

namespace NoControls
variable {c : Char} {cs ds : List Char}

theorem cons (hc : 32 ≤ c.toNat) (h : NoControls cs) : NoControls (c :: cs) :=
  List.forall_mem_cons.2 ⟨hc, h⟩

theorem append (h : NoControls cs) (h' : NoControls ds) : NoControls (cs ++ ds) :=
  List.forall_mem_append.2 ⟨h, h'⟩

theorem flatMap {α : Type} {xs : List α} {f : α → List Char} (h : ∀ x ∈ xs, NoControls (f x)) :
    NoControls (xs.flatMap f) := by
  intro c hc
  obtain ⟨x, hx, hc⟩ := List.mem_flatMap.1 hc
  exact h x hx c hc

end NoControls

section
variable {c : Char} {us : List Char}

theorem Escapes.noControls (h : Escapes c us) : NoControls us := by
  cases h with
  | letter h =>
    simp only [List.mem_cons, List.not_mem_nil, or_false] at h
    obtain rfl | rfl | rfl | rfl | rfl | rfl | rfl := h <;> decide
  | control h =>
    have hdigit : ∀ n < 16, 32 ≤ (hexDigit n).toNat := by decide
    have hmark : NoControls ['\\', 'u', '0', '0'] := by decide
    exact hmark.append (.cons (hdigit _ (by omega)) (.cons (hdigit _ (by omega)) nofun))
  | plain _ _ h => exact .cons h nofun

theorem Escapes.stringBody (h : Escapes c us) (rest : List Char) :
    stringBody (us ++ rest) = (stringBody rest).map fun (body, rest) => (us ++ body, rest) := by
  cases h with
  | letter h =>
    simp only [List.mem_cons, List.not_mem_nil, or_false] at h
    obtain rfl | rfl | rfl | rfl | rfl | rfl | rfl := h <;> simp [Json.stringBody]
  | control h =>
    have hhigh := isHexDigit_hexDigit (c.toNat / 16) (by omega)
    have hlow := isHexDigit_hexDigit (c.toNat % 16) (by omega)
    have hzero : isHexDigit '0' = true := by decide
    simp [Json.stringBody, hhigh, hlow, hzero]
  | plain hquote hslash h =>
    rw [List.singleton_append, Json.stringBody]
    · rw [if_neg (Nat.not_lt.2 h)]
      rfl
    all_goals simp [hquote, hslash]

theorem Escapes.unescape? (h : Escapes c us) (rest : List Char) :
    unescape? (us ++ rest) = (unescape? rest).map (c :: ·) := by
  cases h with
  | letter h =>
    simp only [List.mem_cons, List.not_mem_nil, or_false] at h
    obtain rfl | rfl | rfl | rfl | rfl | rfl | rfl := h <;> simp [Json.unescape?]
  | control h =>
    have hunit := unit_control c.toNat h
    have hhigh : isHighSurrogate c.toNat = false := by
      simp [isHighSurrogate]
      omega
    have hlow : isLowSurrogate c.toNat = false := by
      simp [isLowSurrogate]
      omega
    rw [List.cons_append, Json.unescape?.eq_def]
    simp [hunit, hhigh, hlow]
  | plain hquote hslash h => simp [Json.unescape?, hslash]

end

theorem stringBody_escape (cs rest : List Char) :
    stringBody (escape cs ++ '"' :: rest) = some (escape cs, rest) := by
  induction cs with
  | nil => simp [escape, stringBody]
  | cons c cs ih =>
    rw [escape_cons, List.append_assoc, (escapes_escapeChar c).stringBody, ih]
    rfl

theorem unescape?_escape (cs : List Char) : unescape? (escape cs) = some cs := by
  induction cs with
  | nil => rfl
  | cons c cs ih =>
    rw [escape_cons, (escapes_escapeChar c).unescape?, ih]
    rfl

theorem NoControls.escape (cs : List Char) : NoControls (escape cs) :=
  .flatMap fun c _ => (escapes_escapeChar c).noControls

def quoted (s : String) : List Char := '"' :: escape s.toList ++ ['"']

def member (m : String × String) : List Char := quoted m.1 ++ ':' :: quoted m.2

theorem toList_quote (s : String) : (quote s).toList = quoted s := by
  simp [quote, quoted]

theorem skipBlank_quoted (s : String) (rest : List Char) :
    skipBlank (quoted s ++ rest) = quoted s ++ rest := by
  simp [skipBlank, quoted, isBlank]

/-- A rule reads `value` and leaves `rest`. -/
def Reads {α : Type} {cs : List Char} (r : Option (Reading α cs)) (value : α) (rest : List Char) :
    Prop := ∃ h, r = some ⟨value, rest, h⟩

theorem reads_reading? {α : Type} {cs rest : List Char} (h : rest.length < cs.length) (value : α) :
    Reads (reading? value rest : Option (Reading α cs)) value rest := ⟨h, dif_pos h⟩

theorem reads_key? (m : String × String) (rest : List Char) :
    Reads (key? (member m ++ rest)) (escape m.1.toList) (quoted m.2 ++ rest) := by
  have hcs : member m ++ rest =
      '"' :: (escape m.1.toList ++ '"' :: ':' :: (quoted m.2 ++ rest)) := by
    simp [member, quoted]
  rw [hcs, key?, stringBody_escape]
  refine reads_reading? ?_ _
  simp
  omega

theorem reads_value? (s : String) (rest : List Char) :
    Reads (value? (quoted s ++ rest)) (.string (escape s.toList)) rest := by
  have hcs : quoted s ++ rest = '"' :: (escape s.toList ++ '"' :: rest) := by simp [quoted]
  rw [hcs, value?]
  · rw [scalar?, stringBody_escape]
    refine reads_reading? ?_ _
    simp
    omega
  all_goals simp

def memberTree (m : String × String) : List Char × Tree :=
  (escape m.1.toList, .string (escape m.2.toList))

section
variable {cs key rest after more : List Char} {value : Tree} {others : List (List Char × Tree)}

theorem reads_members?_last (hk : Reads (key? cs) key rest)
    (hv : Reads (value? (skipBlank rest)) value ('\x7d' :: after)) :
    Reads (members? cs) [(key, value)] after := by
  have hrest := length_skipBlank_le rest
  obtain ⟨hkey, hk⟩ := hk
  obtain ⟨hvalue, hv⟩ := hv
  rw [members?, hk]
  dsimp only [Option.bind_eq_bind, Option.bind_some]
  rw [hv]
  rw [List.length_cons] at hvalue
  exact reads_reading? (by omega) _

theorem reads_members?_cons (hk : Reads (key? cs) key rest)
    (hv : Reads (value? (skipBlank rest)) value (',' :: more))
    (hm : Reads (members? (skipBlank more)) others after) :
    Reads (members? cs) ((key, value) :: others) after := by
  have hrest := length_skipBlank_le rest
  have hmore := length_skipBlank_le more
  obtain ⟨hkey, hk⟩ := hk
  obtain ⟨hvalue, hv⟩ := hv
  obtain ⟨hothers, hm⟩ := hm
  rw [members?, hk]
  dsimp only [Option.bind_eq_bind, Option.bind_some]
  rw [hv]
  rw [List.length_cons] at hvalue
  have hafter : after.length < cs.length := by omega
  show Reads ((members? (skipBlank more)).bind _) _ _
  rw [hm]
  exact reads_reading? hafter _

theorem reads_value?_object (hcs : skipBlank cs = '"' :: more)
    (hm : Reads (members? ('"' :: more)) others after) :
    Reads (value? ('\x7b' :: cs)) (.object others) after := by
  have hlength := length_skipBlank_le cs
  obtain ⟨hothers, hm⟩ := hm
  rw [hcs] at hlength
  have hafter : after.length < ('\x7b' :: cs).length := by
    rw [List.length_cons]
    omega
  rw [value?]
  split
  · rename_i rest' hclose
    cases hcs.symm.trans hclose
  · rename_i first rest' hne hopen
    cases hcs.symm.trans hopen
    rw [hm]
    exact reads_reading? hafter _
  · rename_i hnil
    cases hcs.symm.trans hnil

end

def memberList (m : String × String) (ms : List (String × String)) : List Char :=
  member m ++ ms.flatMap (fun m => ',' :: member m) ++ ['\x7d']

theorem skipBlank_memberList (m : String × String) (ms : List (String × String))
    (rest : List Char) : skipBlank (memberList m ms ++ rest) = memberList m ms ++ rest := by
  simp only [memberList, member, List.append_assoc]
  exact skipBlank_quoted m.1 _

theorem noControls_memberList (m : String × String) (ms : List (String × String)) :
    NoControls (memberList m ms) := by
  have hend : NoControls ['"'] ∧ NoControls ['\x7d'] := by decide
  have hquoted : ∀ s, NoControls (quoted s) := fun s =>
    .append (.cons (by decide) (.escape _)) hend.1
  have hmember : ∀ m, NoControls (member m) := fun m =>
    .append (hquoted m.1) (.cons (by decide) (hquoted m.2))
  exact .append (.append (hmember m) (.flatMap fun n _ => .cons (by decide) (hmember n))) hend.2

theorem reads_memberList (m : String × String) (ms : List (String × String)) (rest : List Char) :
    Reads (members? (memberList m ms ++ rest)) ((m :: ms).map memberTree) rest := by
  have hvalue : ∀ (s : String) (more : List Char),
      Reads (value? (skipBlank (quoted s ++ more))) (.string (escape s.toList)) more := by
    intro s more
    rw [skipBlank_quoted]
    exact reads_value? s more
  induction ms generalizing m with
  | nil =>
    have hcs : memberList m [] ++ rest = member m ++ '\x7d' :: rest := by simp [memberList]
    rw [hcs]
    exact reads_members?_last (reads_key? m _) (hvalue m.2 _)
  | cons n ms ih =>
    have hcs : memberList m (n :: ms) ++ rest = member m ++ ',' :: (memberList n ms ++ rest) := by
      simp [memberList]
    rw [hcs]
    refine reads_members?_cons (reads_key? m _) (hvalue m.2 _) ?_
    rw [skipBlank_memberList]
    exact ih n

/-- An object of texts is read with its members in the order in which they are written. -/
theorem Tree.ofText?_memberList (m : String × String) (ms : List (String × String)) :
    Tree.ofText? ('\x7b' :: memberList m ms) = some (.object ((m :: ms).map memberTree)) := by
  have hm := reads_memberList m ms []
  have hskip := skipBlank_memberList m ms []
  rw [List.append_nil] at hm hskip
  obtain ⟨hv, hvalue⟩ := reads_value?_object hskip hm
  have hblank : skipBlank ('\x7b' :: memberList m ms) = '\x7b' :: memberList m ms := rfl
  rw [ofText?, hblank, hvalue]
  rfl

theorem Tree.toMembers?_memberTree (depth : Nat) (ms : List (String × String)) :
    Tree.toMembers? depth (ms.map memberTree) = some (ms.map fun m => (m.1, .string m.2)) := by
  induction ms with
  | nil => rfl
  | cons m ms ih =>
    rw [List.map_cons, memberTree, toMembers?, unescape?_escape, toValue?, unescape?_escape, ih]
    simp

end EntityQuery.Json
