import Mathlib.Data.Int.Notation
import Mathlib.Data.Rat.Init
import Mathlib.Data.List.Basic

/-!
# JSON values and record codecs

A codec dumps a value to JSON and loads it back; the round trip is a field of the codec, so every
contract built from codecs round-trips by construction.  Object keys `κ` and texts `τ` are
arbitrary.

* `Codec` with lists (`Codec.list`), absent values (`Codec.option`) and change of representation
  (`Codec.iso`).
* `Fields`: the fields of a record, each with a name and possibly a default; `Fields.codec` loads
  an object only if it has no other key.
-/

namespace Sentinel.Logic

/-- JSON values. -/
inductive Json (κ τ : Type) : Type
  | null
  | bool (b : Bool)
  | int (n : ℤ)
  | num (q : ℚ)
  | str (s : τ)
  | arr (items : List (Json κ τ))
  | obj (items : List (κ × Json κ τ))

variable {κ τ α β : Type}

section DecidableEq

variable [DecidableEq κ] [DecidableEq τ]

mutual

/-- Equality of JSON values, as a test. -/
def Json.same : Json κ τ → Json κ τ → Bool
  | .null, .null => true
  | .bool b, .bool b' => b == b'
  | .int n, .int n' => n = n'
  | .num q, .num q' => q = q'
  | .str s, .str s' => s = s'
  | .arr xs, .arr ys => Json.sameItems xs ys
  | .obj xs, .obj ys => Json.sameFields xs ys
  | _, _ => false

def Json.sameItems : List (Json κ τ) → List (Json κ τ) → Bool
  | [], [] => true
  | x :: xs, y :: ys => x.same y && Json.sameItems xs ys
  | _, _ => false

def Json.sameFields : List (κ × Json κ τ) → List (κ × Json κ τ) → Bool
  | [], [] => true
  | (k, x) :: xs, (k', y) :: ys => decide (k = k') && x.same y && Json.sameFields xs ys
  | _, _ => false

end

mutual

theorem Json.same_iff : ∀ x y : Json κ τ, x.same y = true ↔ x = y
  | .null, y => by cases y <;> simp [Json.same]
  | .bool b, y => by cases y <;> simp [Json.same]
  | .int n, y => by cases y <;> simp [Json.same]
  | .num q, y => by cases y <;> simp [Json.same]
  | .str s, y => by cases y <;> simp [Json.same]
  | .arr xs, y => by cases y <;> simp [Json.same, Json.sameItems_iff]
  | .obj xs, y => by cases y <;> simp [Json.same, Json.sameFields_iff]

theorem Json.sameItems_iff : ∀ xs ys : List (Json κ τ), Json.sameItems xs ys = true ↔ xs = ys
  | [], ys => by cases ys <;> simp [Json.sameItems]
  | x :: xs, ys => by cases ys <;> simp [Json.sameItems, Json.same_iff, Json.sameItems_iff]

theorem Json.sameFields_iff :
    ∀ xs ys : List (κ × Json κ τ), Json.sameFields xs ys = true ↔ xs = ys
  | [], ys => by cases ys <;> simp [Json.sameFields]
  | (k, x) :: xs, ys => by
    cases ys <;> simp [Json.sameFields, Json.same_iff, Json.sameFields_iff, Prod.ext_iff]

end

instance : DecidableEq (Json κ τ) := fun x y => decidable_of_iff _ (Json.same_iff x y)

end DecidableEq

structure Codec (κ τ α : Type) : Type where
  dump : α → Json κ τ
  load : Json κ τ → Option α
  load_dump : ∀ a, load (dump a) = some a

namespace Codec

attribute [simp] load_dump

theorem dump_injective (c : Codec κ τ α) {a b : α} (h : c.dump a = c.dump b) : a = b := by
  have hload := congrArg c.load h
  simpa using hload

/-- The same JSON for another representation of the values. -/
def iso (c : Codec κ τ α) (mk : α → β) (un : β → α) (h : ∀ b, mk (un b) = b) : Codec κ τ β where
  dump b := c.dump (un b)
  load j := (c.load j).map mk
  load_dump b := by simp [h]

/-- `null` for the absent value. -/
def option (c : Codec κ τ α) (h : ∀ a, c.dump a ≠ .null) : Codec κ τ (Option α) where
  dump
    | none => .null
    | some a => c.dump a
  load
    | .null => some none
    | j => (c.load j).map some
  load_dump a := by
    cases a with
    | none => rfl
    | some a =>
      have hl := c.load_dump a
      cases hd : c.dump a with
      | null => exact absurd hd (h a)
      | bool | int | num | str | arr | obj =>
        rw [hd] at hl
        simp only [hd, hl, Option.map_some]

def loadAll (c : Codec κ τ α) : List (Json κ τ) → Option (List α)
  | [] => some []
  | j :: js => (c.load j).bind fun a => (c.loadAll js).map (a :: ·)

theorem loadAll_map (c : Codec κ τ α) (as : List α) : c.loadAll (as.map c.dump) = some as := by
  induction as with
  | nil => rfl
  | cons a as ih => simp [loadAll, ih]

def list (c : Codec κ τ α) : Codec κ τ (List α) where
  dump as := .arr (as.map c.dump)
  load
    | .arr js => c.loadAll js
    | _ => none
  load_dump as := c.loadAll_map as

/-- An object with any keys, kept as it is. -/
def dict : Codec κ τ (List (κ × Json κ τ)) where
  dump o := .obj o
  load
    | .obj o => some o
    | _ => none
  load_dump _ := rfl

/-- The members of an enumeration, each written as its own text. -/
def enum [DecidableEq τ] (values : List α) (value : α → τ)
    (h : ∀ a, values.find? (fun b => value b = value a) = some a) : Codec κ τ α where
  dump a := .str (value a)
  load
    | .str s => values.find? fun b => value b = s
    | _ => none
  load_dump a := h a

end Codec

/-! ## Records -/

/-- One field of a record; without a default the field is required. -/
structure Field (κ τ α : Type) : Type where
  name : κ
  codec : Codec κ τ α
  default : Option α

def Field.load [DecidableEq κ] (f : Field κ τ α) (o : List (κ × Json κ τ)) : Option α :=
  match o.lookup f.name with
  | some j => f.codec.load j
  | none => f.default

/-- The fields of a record, with the values as nested pairs. -/
structure Fields (κ τ α : Type) : Type where
  names : List κ
  dump : α → List (κ × Json κ τ)
  load : List (κ × Json κ τ) → Option α
  names_dump : ∀ a, (dump a).map Prod.fst = names
  load_cons : ∀ n j o, n ∉ names → load ((n, j) :: o) = load o
  load_dump : ∀ a, load (dump a) = some a

namespace Fields

def nil : Fields κ τ Unit := ⟨[], fun _ => [], fun _ => some (), fun _ => rfl, fun _ _ _ _ => rfl,
  fun _ => rfl⟩

def cons [DecidableEq κ] (f : Field κ τ α) (fs : Fields κ τ β) (h : f.name ∉ fs.names := by decide) :
    Fields κ τ (α × β) where
  names := f.name :: fs.names
  dump p := (f.name, f.codec.dump p.1) :: fs.dump p.2
  load o := (f.load o).bind fun a => (fs.load o).map (a, ·)
  names_dump p := by simp [fs.names_dump]
  load_cons n j o hn := by
    have hne : (f.name == n) = false := by
      simp only [List.mem_cons, not_or] at hn
      simpa using fun h => hn.1 h.symm
    have hrest : n ∉ fs.names := fun hmem => hn (List.mem_cons_of_mem _ hmem)
    simp only [Field.load, List.lookup_cons, hne, fs.load_cons n j o hrest]
  load_dump p := by
    simp [Field.load, fs.load_cons _ _ _ h, fs.load_dump]

/-- A field is loaded from what it was dumped to, and the other fields from what follows. -/
theorem load_cons_dump [DecidableEq κ] {f : Field κ τ α} {fs : Fields κ τ β} {h : f.name ∉ fs.names}
    {a : α} {o : List (κ × Json κ τ)} {b : β} (hb : fs.load o = some b) :
    (cons f fs h).load ((f.name, f.codec.dump a) :: o) = some (a, b) := by
  simp [cons, Field.load, fs.load_cons _ _ _ h, hb]

/-- The codec of the record: an object with these fields and no other. -/
def codec [DecidableEq κ] (fs : Fields κ τ α) : Codec κ τ α where
  dump a := .obj (fs.dump a)
  load
    | .obj o => if ∀ k ∈ o.map Prod.fst, k ∈ fs.names then fs.load o else none
    | _ => none
  load_dump a := by
    simp [fs.names_dump, fs.load_dump]

/-- An object whose keys are fields of the record is loaded field by field. -/
theorem codec_load [DecidableEq κ] {fs : Fields κ τ α} {o : List (κ × Json κ τ)} {a : α}
    (hkeys : ∀ k ∈ o.map Prod.fst, k ∈ fs.names) (h : fs.load o = some a) :
    fs.codec.load (.obj o) = some a := by
  simp only [codec]
  rw [if_pos hkeys, h]

/-- A key outside the record is refused. -/
theorem load_extra [DecidableEq κ] (fs : Fields κ τ α) {o : List (κ × Json κ τ)} {k : κ}
    (hk : k ∈ o.map Prod.fst) (hnew : k ∉ fs.names) : fs.codec.load (.obj o) = none := by
  simp only [codec]
  rw [if_neg fun hall => hnew (hall k hk)]

end Fields

end Sentinel.Logic
