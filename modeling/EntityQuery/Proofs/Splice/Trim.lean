import EntityQuery.Proofs.Lexing.Lexes
/-! Texts between blanks, and what trimming leaves of them. -/
namespace EntityQuery.QueryText
open Text

def Blanks (cs : List Char) : Prop := ∀ c ∈ cs, isBlank c = true

section
variable {cs us bs : List Char}

theorem trimEnd_cut (cs : List Char) : ∃ bs, cs = trimEnd cs ++ bs ∧ Blanks bs := by
  refine ⟨(cs.reverse.takeWhile isBlank).reverse, ?_, fun c hc => ?_⟩
  · rw [trimEnd, ← List.reverse_append, List.takeWhile_append_dropWhile, List.reverse_reverse]
  · exact List.mem_takeWhile_imp (List.mem_reverse.1 hc)

theorem trimEnd_last (cs : List Char) : ∀ c ∈ (trimEnd cs).getLast?, isBlank c = false := by
  intro c hc
  rw [trimEnd, List.getLast?_reverse] at hc
  exact head?_dropWhile c hc

theorem trimEnd_of_blanks (h : Blanks bs) : trimEnd bs = [] := by
  rw [trimEnd, List.dropWhile_eq_nil_iff.2 fun c hc => h c (List.mem_reverse.1 hc)]
  rfl

theorem trimEnd_eq_self (h : ∀ c ∈ cs.getLast?, isBlank c = false) : trimEnd cs = cs := by
  have hnil : trimEnd [] = [] := rfl
  have hcs := trimEnd_append h []
  rwa [List.append_nil, hnil, List.append_nil] at hcs

theorem trimEnd_append_blanks (h : Blanks bs) (cs : List Char) :
    trimEnd (cs ++ bs) = trimEnd cs := by
  obtain ⟨ds, hcut, hds⟩ := trimEnd_cut cs
  have hblanks : Blanks (ds ++ bs) := by
    intro c hc
    exact (List.mem_append.1 hc).elim (hds c) (h c)
  conv_lhs => rw [hcut, List.append_assoc, trimEnd_append (trimEnd_last cs),
    trimEnd_of_blanks hblanks, List.append_nil]

theorem trimEnd_trimEnd (cs : List Char) : trimEnd (trimEnd cs) = trimEnd cs :=
  trimEnd_eq_self (trimEnd_last cs)

theorem trimStart_append_blanks (h : Blanks bs) (cs : List Char) :
    trimStart (bs ++ cs) = trimStart cs := by
  rw [trimStart, List.dropWhile_append, List.dropWhile_eq_nil_iff.2 h]
  rfl

theorem trimStart_eq_self (h : ∀ c ∈ cs.head?, isBlank c = false) : trimStart cs = cs := by
  cases cs with
  | nil => rfl
  | cons c cs => rw [trimStart, List.dropWhile_cons, if_neg (by simp [h c rfl])]

theorem trim_append_blanks (h : Blanks bs) (cs : List Char) : trim (cs ++ bs) = trim cs := by
  rw [trim, trim, trimStart, trimStart, List.dropWhile_append]
  split
  · rename_i hd
    have hnil := List.isEmpty_iff.1 hd
    rw [hnil, List.dropWhile_eq_nil_iff.2 h]
  · exact trimEnd_append_blanks h _

theorem trim_blanks_append (h : Blanks bs) (cs : List Char) : trim (bs ++ cs) = trim cs := by
  rw [trim, trimStart_append_blanks h, trim]

theorem trim_of_head (h : ∀ c ∈ cs.head?, isBlank c = false) : trim cs = trimEnd cs := by
  rw [trim, trimStart_eq_self h]

theorem trim_cut (cs : List Char) :
    ∃ as bs, cs = as ++ (trim cs ++ bs) ∧ Blanks as ∧ Blanks bs := by
  obtain ⟨bs, hbs, hblanks⟩ := trimEnd_cut (trimStart cs)
  refine ⟨cs.takeWhile isBlank, bs, ?_, fun c hc => List.mem_takeWhile_imp hc, hblanks⟩
  rw [trim, ← hbs, trimStart, List.takeWhile_append_dropWhile]

theorem trim_last (cs : List Char) : ∀ c ∈ (trim cs).getLast?, isBlank c = false :=
  trimEnd_last _

theorem trim_head (cs : List Char) : ∀ c ∈ (trim cs).head?, isBlank c = false := by
  obtain ⟨more, hmore⟩ := trimEnd_prefix (trimStart cs)
  intro c hc
  refine head?_dropWhile c (?_ : c ∈ (trimStart cs).head?)
  rw [← hmore, List.head?_append]
  rw [trim] at hc
  rw [Option.mem_def.1 hc]
  rfl

theorem trim_eq_self (hh : ∀ c ∈ cs.head?, isBlank c = false)
    (hl : ∀ c ∈ cs.getLast?, isBlank c = false) : trim cs = cs := by
  rw [trim_of_head hh, trimEnd_eq_self hl]

theorem trim_trim (cs : List Char) : trim (trim cs) = trim cs :=
  trim_eq_self (trim_head cs) (trim_last cs)

end

end EntityQuery.QueryText
