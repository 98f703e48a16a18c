import Shortener.DotNet.Dictionary

/-!
# `System.Text.Json` on classes

A JSON text is its syntax tree `Json`. A `Contract` lists the public properties of a
class as the serializer sees them: all of them are written; on reading, a member is
assigned if its property has a `set` or `init` accessor and is skipped otherwise.

* `Contract.deserialize_serialize`: reading what was written copies every property that
  can be assigned, in order, to a new object.
* `Property.copy_readWrite`, `Property.copy_readOnly`: what copying one of them does.
-/

namespace Shortener.DotNet

/-- The syntax tree of a document. -/
inductive Json
  | null
  | number (n : ℤ)
  | string (s : String)
  | object (members : List (String × Json))

variable {α β : Type}

/-- How values of a type are written and read. -/
structure Converter (β : Type) where
  write : β → Json
  read : Json → Exec β

namespace Converter

/-- `int`. -/
def int : Converter ℤ where
  write := .number
  read
    | .number n =>
      if IsInt32 n then .ret n
      else .throw (.json "The JSON value could not be converted to System.Int32.")
    | _ => .throw (.json "The JSON value could not be converted to System.Int32.")

/-- `string`, of which a reference may be null. -/
def string : Converter (Option String) where
  write s := s.elim .null .string
  read
    | .null => .ret none
    | .string s => .ret (some s)
    | _ => .throw (.json "The JSON value could not be converted to System.String.")

theorem read_write_int {n : ℤ} (h : IsInt32 n) : int.read (int.write n) = .ret n := if_pos h

theorem read_write_string (s : Option String) : string.read (string.write s) = .ret s := by
  cases s <;> rfl

end Converter

/-- A public property with a getter. -/
structure Property (α : Type) where
  name : String
  write : α → Json
  /-- what the `set` or `init` accessor does with a member, if there is one -/
  assign : Option (Json → α → Exec α)

namespace Property

/-- `{ get; set; }` or `{ get; init; }`. -/
def readWrite (name : String) (c : Converter β) (get : α → β) (set : β → α → α) : Property α where
  name := name
  write a := c.write (get a)
  assign := some fun json a => do return set (← c.read json) a

/-- `{ get; }`. -/
def readOnly (name : String) (write : β → Json) (get : α → β) : Property α where
  name := name
  write a := write (get a)
  assign := none

/-- Assign the value that the property has in `a`, if it can be assigned. -/
def copy (p : Property α) (a b : α) : Exec α :=
  match p.assign with
  | none => .ret b
  | some assign => assign (p.write a) b

theorem copy_readWrite {name : String} {c : Converter β} {get : α → β} {set : β → α → α} {a : α}
    {value : β} (h : c.read (c.write (get a)) = .ret value) (b : α) :
    (readWrite name c get set).copy a b = .ret (set value b) := by
  show (c.read (c.write (get a)) >>= fun x => (Exec.ret (set x b) : Exec α)) = _
  rw [h]
  rfl

theorem copy_readOnly (name : String) (write : β → Json) (get : α → β) (a b : α) :
    (readOnly name write get).copy a b = .ret b := rfl

end Property

/-- A class with a public parameterless constructor. -/
structure Contract (α : Type) where
  create : α
  properties : List (Property α)

namespace Contract

variable (c : Contract α)

/-- `JsonSerializer.Serialize`. -/
def serialize (a : α) : Json := .object (c.properties.map fun p => (p.name, p.write a))

/-- Members without a property are skipped, like those of a property without accessor. -/
def deserialize : Json → Exec α
  | .object members =>
    members.foldlM (fun a member =>
      match c.properties.find? (·.name = member.1) with
      | none => .ret a
      | some p =>
        match p.assign with
        | none => .ret a
        | some assign => assign member.2 a) c.create
  | _ => .throw (.json "The JSON value could not be converted.")

/-- A property of this class. -/
def converter : Converter (Option α) where
  write a := a.elim .null c.serialize
  read
    | .null => .ret none
    | json => some <$> c.deserialize json

variable {c}

theorem find_property {ps : List (Property α)} {p : Property α}
    (hnodup : (ps.map Property.name).Nodup) (hp : p ∈ ps) :
    ps.find? (·.name = p.name) = some p := by
  induction ps with
  | nil => cases hp
  | cons q ps ih =>
    obtain ⟨hq, hnodup⟩ := List.nodup_cons.mp hnodup
    rcases List.mem_cons.mp hp with rfl | hp
    · exact List.find?_cons_of_pos (by simp)
    · have hne : q.name ≠ p.name := fun h => hq (h ▸ List.mem_map_of_mem hp)
      rw [List.find?_cons_of_neg (by simpa using hne), ih hnodup hp]

/-- Reading what was written copies the properties, one by one, to a new object. -/
theorem deserialize_serialize (hnodup : (c.properties.map Property.name).Nodup) (a : α) :
    c.deserialize (c.serialize a) = c.properties.foldlM (fun b p => p.copy a b) c.create := by
  rw [serialize, deserialize, List.foldlM_map]
  apply Exec.foldlM_congr
  intro p hp b
  rw [find_property hnodup hp]
  rfl

theorem read_write_converter {a b : α} (h : c.deserialize (c.serialize a) = .ret b) :
    c.converter.read (c.converter.write (some a)) = .ret (some b) := by
  show some <$> c.deserialize (c.serialize a) = _
  rw [h]
  rfl

end Contract

end Shortener.DotNet
