/-!
Stable sorting by insertion, with an order given as a test. `perm_sortBy` and `pairwise_sortBy` say
that the result holds the same items, in order whenever the test is a total preorder.
-/
namespace EpochSeal

variable {α : Type} (le : α → α → Bool)

/-- Puts an item in front of the first one that it may stand before. -/
def insertBy (a : α) : List α → List α
  | [] => [a]
  | b :: rest => if le a b then a :: b :: rest else b :: insertBy a rest

def sortBy : List α → List α
  | [] => []
  | a :: rest => insertBy le a (sortBy rest)

variable {le}

theorem perm_insertBy (a : α) (items : List α) : (insertBy le a items).Perm (a :: items) := by
  induction items with
  | nil => exact .refl _
  | cons b rest ih =>
    simp only [insertBy]
    split
    · exact .refl _
    · exact (ih.cons b).trans (.swap a b rest)

theorem perm_sortBy (items : List α) : (sortBy le items).Perm items := by
  induction items with
  | nil => exact .refl _
  | cons a rest ih => exact (perm_insertBy a _).trans (ih.cons a)

@[simp] theorem mem_sortBy {a : α} {items : List α} : a ∈ sortBy le items ↔ a ∈ items :=
  (perm_sortBy items).mem_iff

@[simp] theorem length_sortBy (items : List α) : (sortBy le items).length = items.length :=
  (perm_sortBy items).length_eq

theorem pairwise_insertBy (total : ∀ a b, le a b ∨ le b a)
    (trans : ∀ a b c, le a b → le b c → le a c) (a : α) {items : List α}
    (h : items.Pairwise fun x y => le x y) : (insertBy le a items).Pairwise fun x y => le x y := by
  induction items with
  | nil => simp [insertBy]
  | cons b rest ih =>
    obtain ⟨hhead, hrest⟩ := List.pairwise_cons.1 h
    simp only [insertBy]
    split
    case isTrue hab =>
      refine List.pairwise_cons.2 ⟨fun c hc => ?_, h⟩
      rcases List.mem_cons.1 hc with rfl | hc
      · exact hab
      · exact trans a b c hab (hhead c hc)
    case isFalse hab =>
      refine List.pairwise_cons.2 ⟨fun c hc => ?_, ih hrest⟩
      rcases List.mem_cons.1 ((perm_insertBy a rest).mem_iff.1 hc) with rfl | hc
      · exact (total c b).resolve_left hab
      · exact hhead c hc

theorem pairwise_sortBy (total : ∀ a b, le a b ∨ le b a)
    (trans : ∀ a b c, le a b → le b c → le a c) (items : List α) :
    (sortBy le items).Pairwise fun x y => le x y := by
  induction items with
  | nil => exact .nil
  | cons a rest ih => exact pairwise_insertBy total trans a ih

end EpochSeal
