/-! Stable sorting by an order that may contradict itself: where the sort notices that, there is no
result. Few items are sorted by insertion, more of them by runs that are merged or parted. -/
namespace EntityQuery.StableSort
variable {α : Type} (precedes : α → α → Bool)

def insertBack (x : α) : List α → List α
  | [] => [x]
  | y :: rest => if precedes x y then y :: insertBack x rest else x :: y :: rest

def insertAll (sorted xs : List α) : List α :=
  (xs.foldl (fun reversed x => insertBack precedes x reversed) sorted.reverse).reverse

/-- Merges two pairs that are sorted: first the least and the greatest item, then the other two. -/
def mergePairs (a b c d : α) : List α :=
  let least := if precedes c a then c else a
  let greatest := if precedes d b then b else d
  let left := if precedes c a then a else if precedes d b then c else b
  let right := if precedes d b then d else if precedes c a then b else c
  if precedes right left then [least, right, left, greatest] else [least, left, right, greatest]

def sortFour (a b c d : α) : List α :=
  let (a, b) := if precedes b a then (b, a) else (a, b)
  let (c, d) := if precedes d c then (d, c) else (c, d)
  mergePairs precedes a b c d

def sortHalf (fours : Bool) : List α → List α
  | a :: b :: c :: d :: rest =>
    if fours then insertAll precedes (sortFour precedes a b c d) rest
    else insertAll precedes [] (a :: b :: c :: d :: rest)
  | xs => insertAll precedes [] xs

/-- Items that are merged, and what is left of the two lists that they are from. -/
structure Merging (α : Type) where
  merged : List α
  left : List α
  right : List α

def mergeSteps : Nat → List α → List α → Merging α
  | n + 1, x :: xs, y :: ys =>
    if precedes y x then
      let m := mergeSteps n (x :: xs) ys
      { m with merged := y :: m.merged }
    else
      let m := mergeSteps n xs (y :: ys)
      { m with merged := x :: m.merged }
  | _, xs, ys => ⟨[], xs, ys⟩

/-- The items that are taken from neither end, unless an item is taken from both. -/
def between (xs behind before : List α) : Option (List α) :=
  if xs.length ≤ behind.length + before.length then
    some (behind.take (behind.length + before.length - xs.length))
  else none

/-- Merges from both ends, half of the items from each; if their number is odd one is left. -/
def mergeHalves (left right : List α) : Option (List α) := do
  let n := (left.length + right.length) / 2
  let front := mergeSteps precedes n left right
  let back := mergeSteps (fun x y => precedes y x) n right.reverse left.reverse
  let middle ← between left front.left back.right
  let middle' ← between right front.right back.left
  return front.merged ++ middle ++ middle' ++ back.merged.reverse

def smallMax : Nat := 32

def smallSort (xs : List α) : Option (List α) :=
  if xs.length < 2 then some xs
  else
    let half := sortHalf precedes (8 ≤ xs.length)
    mergeHalves precedes (half (xs.take (xs.length / 2))) (half (xs.drop (xs.length / 2)))

structure Run (α : Type) where
  items : List α
  sorted : Bool

def Run.toSorted (quick : List α → Option (List α)) (r : Run α) : Option (List α) :=
  if r.sorted then some r.items else quick r.items

def chain (follows : α → α → Bool) (x : α) : List α → Nat
  | [] => 0
  | y :: rest => if follows x y then chain follows y rest + 1 else 0

/-- The run that starts with `x`, and the number of other items to go on behind. A chain of `good`
items that is in order, or strictly in reverse order, is a run as it is. -/
def nextRun (eager : Bool) (good : Nat) (x : α) (rest : List α) : Option (Run α × Nat) :=
  let descending := rest.head?.any (precedes · x)
  let k := chain (fun x y => precedes y x == descending) x rest
  if good ≤ k + 1 then
    let items := x :: rest.take k
    some (⟨if descending then items.reverse else items, true⟩, k)
  else if eager then do
    let items ← smallSort precedes (x :: rest.take (smallMax - 1))
    return (⟨items, true⟩, smallMax - 1)
  else some (⟨x :: rest.take (good - 1), false⟩, good - 1)

def runs (eager : Bool) (good : Nat) : List α → Option (List (Run α))
  | [] => some []
  | x :: rest => do
    let (run, k) ← nextRun precedes eager good x rest
    return run :: (← runs eager good (rest.drop k))
termination_by xs => xs.length
decreasing_by
  simp only [List.length_drop, List.length_cons]
  omega

/-- Merges two lists; the longer one is gone through from the end where the shorter one is. -/
def merge (xs ys : List α) : List α :=
  if xs.length ≤ ys.length then xs.merge ys fun x y => !precedes y x
  else (ys.reverse.merge xs.reverse fun y x => !precedes y x).reverse

/-- Neighbouring runs as one. They stay unsorted if both are, as long as `quick` has the room. -/
def Run.join (quick : List α → Option (List α)) (room : Nat) (left right : Run α) :
    Option (Run α) :=
  if left.items.length + right.items.length ≤ room ∧ !left.sorted ∧ !right.sorted then
    some ⟨left.items ++ right.items, false⟩
  else do
    return ⟨merge precedes (← left.toSorted quick) (← right.toSorted quick), true⟩

/-- How deep in the tree of merges two runs of a list of length `n` are joined: the number of
leading bits, of 64, that their middles have in common when they are scaled to `2 ^ 62`. -/
def joinDepth (n left mid right : Nat) : Nat :=
  let scale := (Nat.pow 2 62 + n - 1) / n
  let bits := (scale * (left + mid)) ^^^ (scale * (mid + right))
  if bits = 0 then 64 else 63 - bits.log2

def collapse (join : Run α → Run α → Option (Run α)) (depth : Nat) :
    List (Run α × Nat) → Run α → Option (List (Run α × Nat) × Run α)
  | [], run => some ([], run)
  | (left, d) :: below, run =>
    if depth ≤ d then do collapse join depth below (← join left run)
    else some ((left, d) :: below, run)

/-- Joins a run, which ends at `scanned`, with those on the stack and those to come. -/
def joinAll (join : Run α → Run α → Option (Run α)) (n scanned : Nat) (stack : List (Run α × Nat))
    (run : Run α) : List (Run α) → Option (Run α)
  | [] => do return (← collapse join 0 stack run).2
  | next :: more => do
    let behind := scanned + next.items.length
    let depth := joinDepth n (scanned - run.items.length) scanned behind
    let (stack, run) ← collapse join depth stack run
    joinAll join n behind ((run, depth) :: stack) next more

/-- The length of a good run: half of a short list, about the square root of a long one. -/
def goodLength (n : Nat) : Nat :=
  if n ≤ 64 * 64 then min (n - n / 2) 64
  else
    let shift := (1 + n.log2) / 2
    (Nat.pow 2 shift + n / Nat.pow 2 shift) / 2

def runSort (quick : List α → Option (List α)) (eager : Bool) (room : Nat) (xs : List α) :
    Option (List α) := do
  match ← runs precedes eager (goodLength xs.length) xs with
  | [] => return []
  | run :: more =>
    (← joinAll (Run.join precedes quick room) xs.length run.items.length [] run more).toSorted quick

def medianOfThree (less : Nat → Nat → Bool) (a b c : Nat) : Nat :=
  if less a b = less a c then if less b c = less a b then b else c else a

/-- A median of medians of the three regions of `n` places that start at `a`, `b` and `c`. -/
def median (less : Nat → Nat → Bool) (a b c n : Nat) : Nat :=
  if n < 8 then medianOfThree less a b c
  else
    let region (i : Nat) : Nat := median less i (i + 4 * (n / 8)) (i + 7 * (n / 8)) (n / 8)
    medianOfThree less (region a) (region b) (region c)

def precedesAt (xs : List α) (i j : Nat) : Bool :=
  match xs[i]?, xs[j]? with
  | some x, some y => precedes x y
  | _, _ => false

def pivot (xs : List α) : Nat :=
  let k := xs.length / 8
  median (precedesAt precedes xs) 0 (4 * k) (7 * k) k

def keepWith (p : α) (keep : α → Bool) (before after : List α) : List α :=
  before.filter keep ++ p :: after.filter keep

/-- Parts a list by one of its items and then its parts. Where no item precedes the pivot, or the
`ancestor` that bounds the list from below does not, the items that the pivot does not precede are
done. When the `limit` is used up all runs are sorted eagerly, so none is left to sort. -/
def quickSort (limit : Nat) (ancestor : Option α) (xs : List α) : Option (List α) :=
  if xs.length ≤ smallMax then smallSort precedes xs
  else
    match limit, xs.take (pivot precedes xs), xs.drop (pivot precedes xs) with
    | limit + 1, before, p :: after =>
      let left := (before ++ after).filter (precedes · p)
      if left.isEmpty || ancestor.any (!precedes · p) then do
        let behind := (before ++ after).filter (precedes p ·)
        return keepWith p (!precedes p ·) before after ++ (← quickSort limit none behind)
      else do
        let right ← quickSort limit (some p) (keepWith p (!precedes · p) before after)
        return (← quickSort limit ancestor left) ++ right
    | _, _, _ => runSort precedes (smallSort precedes) true xs.length xs

/-- How many items there is room for apart from the list: as many as it has up to a bound, at least
half of them. -/
def room (n : Nat) : Nat := max (n - n / 2) (min n 166666)

def insertionMax : Nat := 20

def sort (xs : List α) : Option (List α) :=
  if xs.length ≤ insertionMax then some (insertAll precedes [] xs)
  else
    let quick (ys : List α) := quickSort precedes (2 * ys.length.log2) none ys
    runSort precedes quick (xs.length ≤ 2 * smallMax) (room xs.length) xs

end EntityQuery.StableSort
