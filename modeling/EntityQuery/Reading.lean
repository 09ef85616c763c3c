/-! Results of rules that read the front of a list. -/
namespace EntityQuery

/-- What a rule read from `input`, and the rest of it, which is shorter. -/
structure Reading {σ : Type} (α : Type) (input : List σ) where
  value : α
  rest : List σ
  shorter : rest.length < input.length

namespace Reading
variable {σ α β : Type}

def map (f : α → β) {input : List σ} (r : Reading α input) : Reading β input :=
  ⟨f r.value, r.rest, r.shorter⟩

def after {input rest : List σ} (h : rest.length < input.length) (r : Reading α rest) :
    Reading α input :=
  ⟨r.value, r.rest, Nat.lt_trans r.shorter h⟩

end Reading

end EntityQuery
