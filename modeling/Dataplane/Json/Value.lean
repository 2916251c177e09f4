import Dataplane.Table

/-! JSON values, and how plain data is read from them and written to them. -/
namespace Dataplane

inductive Json where
  | null
  | bool (value : Bool)
  | int (value : Int)
  /-- A number with a fraction or an exponent, as it is written. -/
  | real (text : String)
  | str (value : String)
  | arr (items : List Json)
  | obj (members : List (String × Json))

namespace Json

/-- The value of a key, of which the last occurrence counts. -/
def lookup? (key : String) : List (String × Json) → Option Json
  | [] => none
  | (k, v) :: rest =>
    match lookup? key rest with
    | some w => some w
    | none => if k = key then some v else none

/-- A member of an object. -/
def get? (key : String) : Json → Option Json
  | .obj members => lookup? key members
  | _ => none

theorem sizeOf_lt_of_lookup? {key : String} {members : List (String × Json)} {v : Json}
    (h : lookup? key members = some v) : sizeOf v < sizeOf members := by
  induction members with
  | nil => contradiction
  | cons member rest ih =>
    obtain ⟨k, w⟩ := member
    simp only [lookup?] at h
    split at h
    · rename_i u hu
      have hv : u = v := Option.some.inj h
      have := ih (hv ▸ hu)
      simp only [List.cons.sizeOf_spec]
      omega
    · split at h
      · rw [← Option.some.inj h]
        simp only [List.cons.sizeOf_spec, Prod.mk.sizeOf_spec]
        omega
      · contradiction

theorem sizeOf_lt_of_get? {key : String} {j v : Json} (h : j.get? key = some v) :
    sizeOf v < sizeOf j := by
  cases j with
  | obj members =>
    have := sizeOf_lt_of_lookup? h
    simp only [Json.obj.sizeOf_spec]
    omega
  | _ => contradiction

/-- The value of a required member. -/
def field? {α : Type} (read : Json → Option α) (key : String) (j : Json) : Option α := do
  read (← j.get? key)

/-- The value of a member that may be absent or null. -/
def optional? {α : Type} (read : Json → Option α) (key : String) (j : Json) : Option (Option α) :=
  match j with
  | .obj members =>
    match lookup? key members with
    | none | some .null => some none
    | some v => (read v).map some
  | _ => none

def ofOption {α : Type} (write : α → Json) : Option α → Json
  | some a => write a
  | none => .null

def string? : Json → Option String
  | .str s => some s
  | _ => none

def bool? : Json → Option Bool
  | .bool b => some b
  | _ => none

/-- An integer from 0 up to the bound, which is excluded. -/
def below? (bound : Nat) : Json → Option Nat
  | .int n => if 0 ≤ n ∧ n < bound then some n.toNat else none
  | _ => none

def uint8? (j : Json) : Option UInt8 := (j.below? 256).map .ofNat

def uint16? (j : Json) : Option UInt16 := (j.below? 65536).map .ofNat

def uint32? (j : Json) : Option UInt32 := (j.below? 4294967296).map .ofNat

def ofNat (n : Nat) : Json := .int n

def list? {α : Type} (read : Json → Option α) : Json → Option (List α)
  | .arr items => items.mapM read
  | _ => none

def ofList {α : Type} (write : α → Json) (items : List α) : Json := .arr (items.map write)

/-- An array of two. -/
def pair? {α β : Type} (first : Json → Option α) (second : Json → Option β) :
    Json → Option (α × β)
  | .arr [a, b] => return (← first a, ← second b)
  | _ => none

/-- An object as a table. -/
def table? {α : Type} (read : Json → Option α) : Json → Option (Table α)
  | .obj members => members.foldlM (fun t (k, v) => return t.insert k (← read v)) ∅
  | _ => none

def ofTable {α : Type} (write : α → Json) (t : Table α) : Json :=
  .obj (t.toList.map fun (k, a) => (k, write a))

/-- One of a few names. -/
def oneOf? {α : Type} (name : α → String) (choices : List α) : Json → Option α
  | .str s => choices.find? fun a => name a = s
  | _ => none

end Json
end Dataplane
