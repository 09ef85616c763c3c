import EntityQuery.Evaluation.Like
import EntityQuery.Evaluation.Regex
import Mathlib
/-! What a pattern matches: the texts that can be cut into pieces, one for each of its characters.
The remainders that matching keeps are suffixes of each other, so the longest has all of them. -/
namespace EntityQuery.Evaluation

/-- The pieces of a text that a character of a pattern stands for. -/
def StandsFor (p : Char) (piece : List Char) : Prop :=
  if p = '%' then True else if p = '_' then piece.length = 1 else piece = [p]

/-- The text can be cut into pieces, one for each character of the pattern. -/
def Cut (pattern text : List Char) : Prop :=
  ∃ pieces, List.Forall₂ StandsFor pattern pieces ∧ pieces.flatten = text

section
variable {p : Char} {pattern text : List Char}

theorem cut_nil : Cut [] text ↔ text = [] := by
  constructor
  · rintro ⟨pieces, hpieces, rfl⟩
    cases hpieces
    rfl
  · rintro rfl
    exact ⟨[], .nil, rfl⟩

theorem cut_cons : Cut (p :: pattern) text ↔
    ∃ piece rest, piece ++ rest = text ∧ StandsFor p piece ∧ Cut pattern rest := by
  constructor
  · rintro ⟨pieces, hpieces, rfl⟩
    obtain ⟨piece, more, hpiece, hmore, rfl⟩ := List.forall₂_cons_left_iff.1 hpieces
    exact ⟨piece, more.flatten, rfl, hpiece, more, hmore, rfl⟩
  · rintro ⟨piece, rest, rfl, hpiece, pieces, hpieces, rfl⟩
    exact ⟨piece :: pieces, .cons hpiece hpieces, rfl⟩

theorem standsFor_of_ne (h : p ≠ '%') {piece : List Char} :
    StandsFor p piece ↔ ∃ c, (p = '_' ∨ p = c) ∧ piece = [c] := by
  unfold StandsFor
  rw [if_neg h]
  split
  · rename_i hany
    simp [hany, List.length_eq_one_iff]
  · rename_i hany
    simp [hany]

/-- What may be left of a text: each item is a suffix of those before it. -/
def Nested (left : List (List Char)) : Prop := left.Pairwise fun longer shorter => shorter <:+ longer

theorem suffixes_eq_tails (text : List Char) : suffixes text = text.tails := by
  induction text with
  | nil => rfl
  | cons c rest ih => rw [suffixes, ih, List.tails_cons]

theorem nested_suffixes (text : List Char) : Nested (suffixes text) := by
  induction text with
  | nil => exact List.pairwise_singleton _ _
  | cons c rest ih =>
    refine List.pairwise_cons.2 ⟨fun shorter h => ?_, ih⟩
    rw [suffixes_eq_tails, List.mem_tails] at h
    exact h.trans (List.suffix_cons c rest)

theorem mem_remainders_of_ne (h : p ≠ '%') {left : List (List Char)} {rest : List Char} :
    rest ∈ remainders p left ↔ ∃ c, (p = '_' ∨ p = c) ∧ c :: rest ∈ left := by
  unfold remainders
  rw [if_neg h, List.mem_filterMap]
  constructor
  · rintro ⟨text, htext, hrest⟩
    cases text with
    | nil => cases hrest
    | cons c more =>
      simp only [Option.ite_none_right_eq_some, Option.some.injEq] at hrest
      obtain ⟨hc, rfl⟩ := hrest
      exact ⟨c, hc, htext⟩
  · rintro ⟨c, hc, hleft⟩
    exact ⟨c :: rest, hleft, if_pos hc⟩

section
variable {left : List (List Char)} (h : Nested left)
include h

theorem mem_remainders {rest : List Char} : rest ∈ remainders p left ↔
    ∃ text ∈ left, ∃ piece, piece ++ rest = text ∧ StandsFor p piece := by
  by_cases hp : p = '%'
  · have hsuffix : (∃ text ∈ left, rest <:+ text) ↔ rest ∈ remainders p left := by
      unfold remainders
      rw [if_pos hp]
      cases left with
      | nil => simp
      | cons longest more =>
        dsimp only
        rw [suffixes_eq_tails, List.mem_tails]
        constructor
        · rintro ⟨text, htext, hrest⟩
          obtain rfl | htext := List.mem_cons.1 htext
          · exact hrest
          · exact hrest.trans ((List.pairwise_cons.1 h).1 text htext)
        · exact fun hrest => ⟨longest, .head _, hrest⟩
    rw [← hsuffix]
    simp only [StandsFor, hp, if_true, and_true]
    rfl
  · simp only [mem_remainders_of_ne hp, standsFor_of_ne hp]
    constructor
    · rintro ⟨c, hc, hleft⟩
      exact ⟨c :: rest, hleft, [c], rfl, c, hc, rfl⟩
    · rintro ⟨text, htext, piece, rfl, c, hc, rfl⟩
      exact ⟨c, hc, htext⟩

theorem Nested.remainders (p : Char) : Nested (remainders p left) := by
  unfold Evaluation.remainders
  split
  · cases left with
    | nil => exact .nil
    | cons longest more => exact nested_suffixes longest
  · refine List.pairwise_filterMap.2 (h.imp fun {longer shorter} hsuffix xs hxs ys hys => ?_)
    cases longer with
    | nil => cases hxs
    | cons c longer =>
      cases shorter with
      | nil => cases hys
      | cons d shorter =>
        simp only [Option.ite_none_right_eq_some, Option.some.injEq] at hxs hys
        obtain ⟨-, rfl⟩ := hxs
        obtain ⟨-, rfl⟩ := hys
        obtain heq | hsuffix := List.suffix_cons_iff.1 hsuffix
        · rw [(List.cons.inj heq).2]
        · exact (List.suffix_cons d shorter).trans hsuffix

/-- The whole pattern leaves nothing of one of the remainders exactly when it cuts one of them. -/
theorem any_isEmpty_foldl (pattern : List Char) :
    (pattern.foldl (fun left p => Evaluation.remainders p left) left).any List.isEmpty = true ↔
      ∃ text ∈ left, Cut pattern text := by
  induction pattern generalizing left with
  | nil => simp [cut_nil]
  | cons p pattern ih =>
    rw [List.foldl_cons, ih (h.remainders p)]
    simp only [mem_remainders h, cut_cons]
    constructor
    · rintro ⟨rest, ⟨text, htext, piece, hpiece, hp⟩, hcut⟩
      exact ⟨text, htext, piece, rest, hpiece, hp, hcut⟩
    · rintro ⟨text, htext, piece, rest, hpiece, hp, hcut⟩
      exact ⟨rest, ⟨text, htext, piece, hpiece, hp⟩, hcut⟩

end

theorem like_iff_cut : like text pattern = true ↔ Cut pattern text := by
  unfold like
  rw [any_isEmpty_foldl (List.pairwise_singleton _ _)]
  simp

end

namespace Regex
variable {p : Char} {pattern text before piece after : List Char}

theorem matches_many_any (before piece after : List Char) :
    (many any).Matches before piece after := by
  induction piece generalizing before with
  | nil => exact .none _ _ _
  | cons c rest ih => exact .more rfl (.any c before _) (ih _)

theorem matches_ofChar_iff : (ofChar p).Matches before piece after ↔ StandsFor p piece := by
  unfold ofChar StandsFor
  split
  · exact iff_of_true (matches_many_any _ _ _) trivial
  · split
    · rw [List.length_eq_one_iff]
      constructor
      · rintro ⟨⟩
        exact ⟨_, rfl⟩
      · rintro ⟨c, rfl⟩
        exact .any _ _ _
    · constructor
      · rintro ⟨⟩
        rfl
      · rintro rfl
        exact .char _ _ _

theorem matches_foldr_iff :
    (pattern.foldr (fun c r => seq (ofChar c) r) stop).Matches before piece after ↔
      after = [] ∧ Cut pattern piece := by
  induction pattern generalizing before piece after with
  | nil =>
    rw [cut_nil]
    constructor
    · rintro ⟨⟩
      exact ⟨rfl, rfl⟩
    · rintro ⟨rfl, rfl⟩
      exact .stop _
  | cons p pattern ih =>
    rw [List.foldr_cons, cut_cons]
    constructor
    · rintro (_ | _ | _ | _ | _ | _ | ⟨h, hfirst, hrest⟩)
      obtain ⟨rfl, hcut⟩ := ih.1 hrest
      exact ⟨rfl, _, _, h, matches_ofChar_iff.1 hfirst, hcut⟩
    · rintro ⟨rfl, xs, ys, h, hp, hcut⟩
      exact .seq h (matches_ofChar_iff.2 hp) (ih.2 ⟨rfl, hcut⟩)

/-- The expression for a pattern is found in the texts that the pattern cuts: it starts at the start
of a text and stops at its end. -/
theorem ofPattern_foundIn_iff : (ofPattern pattern).FoundIn text ↔ Cut pattern text := by
  constructor
  · rintro ⟨before, piece, after, rfl, _ | _ | _ | _ | _ | _ | ⟨rfl, ⟨⟩, hrest⟩⟩
    obtain ⟨rfl, hcut⟩ := matches_foldr_iff.1 hrest
    simpa using hcut
  · intro hcut
    exact ⟨[], text, [], by simp, .seq rfl (.start _) (matches_foldr_iff.2 ⟨rfl, hcut⟩)⟩

end Regex

end EntityQuery.Evaluation
