import Std.Data.ExtTreeMap
import Std.Data.ExtTreeSet
import Std.Data.HashMap

/-! Finite maps in the order of their keys, and tables of known values of a function. -/
namespace Dataplane

/-- Values found by name, in the order of the names. -/
abbrev Table (α : Type) := Std.ExtTreeMap String α

/-- Apply `f` to all entries in order. The first failure is the failure of the whole. -/
def traverse {κ α β ε : Type} [Ord κ] [Std.TransOrd κ] (f : κ → α → Except ε β)
    (t : Std.ExtTreeMap κ α) : Except ε (Std.ExtTreeMap κ β) :=
  t.toList.foldlM (fun done (k, a) => return done.insert k (← f k a)) ∅

/-- Some of the values of `f`, found by hashing the argument. A table may be incomplete, but never
wrong. -/
structure Memo {α β : Type} [BEq α] [Hashable α] (f : α → β) where
  table : Std.HashMap α β
  sound : ∀ a b, table[a]? = some b → b = f a

namespace Memo

variable {α β : Type} [BEq α] [Hashable α] {f : α → β}

def empty : Memo f := ⟨∅, fun a b h => by simp at h⟩

def find? (m : Memo f) (a : α) : Option { b : β // b = f a } :=
  match h : m.table[a]? with
  | some b => some ⟨b, m.sound a b h⟩
  | none => none

def insert [LawfulBEq α] [LawfulHashable α] (m : Memo f) (a : α) (b : β) (h : b = f a) : Memo f where
  table := m.table.insert a b
  sound a' b' hb := by
    rw [Std.HashMap.getElem?_insert] at hb
    split at hb
    · rename_i he
      rw [← eq_of_beq he, ← h]
      exact (Option.some.inj hb).symm
    · exact m.sound a' b' hb

/-- Look `a` up, or compute its value and keep it. -/
@[inline] def remember [LawfulBEq α] [LawfulHashable α] (a : α)
    (compute : StateM (Memo f) { b : β // b = f a }) : StateM (Memo f) { b : β // b = f a } := do
  match (← get).find? a with
  | some b => return b
  | none =>
    let b ← compute
    modify fun m => m.insert a b.val b.property
    return b

end Memo
end Dataplane
