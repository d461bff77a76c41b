import Mathlib.Data.List.Basic
import Mathlib.Data.Rat.Defs

/-!
JSON values and the decoders a derived deserializer is built from. An object is an association
list, read by key; the order of its keys carries no meaning. Numbers are kept as the exact value
they denote.
-/
namespace IronGolem.JsonValues

open List

inductive Json where
  | null
  | bool (b : Bool)
  | num (value : ℚ)
  | str (text : String)
  | arr (items : List Json)
  | obj (fields : List (String × Json))

abbrev Fields := List (String × Json)
abbrev Decoder (α : Type) := Json → Except String α

def describe : Json → String
  | .null => "null"
  | .bool _ => "boolean"
  | .num _ => "number"
  | .str _ => "string"
  | .arr _ => "sequence"
  | .obj _ => "map"

def invalidType {α : Type} (expected : String) (j : Json) : Except String α :=
  .error ("invalid type: " ++ describe j ++ ", expected " ++ expected)

def asString : Decoder String
  | .str s => .ok s
  | j => invalidType "a string" j

def asList {α : Type} (d : Decoder α) : Decoder (List α)
  | .arr items => items.mapM d
  | j => invalidType "a sequence" j

def asFields (what : String) : Decoder Fields
  | .obj fields => .ok fields
  | j => invalidType what j

def requiredField {α : Type} (d : Decoder α) (name : String) (fields : Fields) : Except String α :=
  match fields.lookup name with
  | some j => d j
  | none => .error ("missing field `" ++ name ++ "`")

def optionalField {α : Type} (d : Decoder α) (name : String) (fields : Fields) :
    Except String (Option α) :=
  match fields.lookup name with
  | none => .ok none
  | some .null => .ok none
  | some j => (d j).map some

def ofOption {α : Type} (e : α → Json) : Option α → Json
  | none => .null
  | some a => e a

def asEnum {α : Type} (name : α → String) (variants : List α) : Decoder α
  | .str s =>
      match variants.find? (fun v => name v == s) with
      | some v => .ok v
      | none => .error ("unknown variant `" ++ s ++ "`")
  | j => invalidType "a variant" j

def isNull : Json → Bool
  | .null => true
  | _ => false

@[simp] theorem asString_str (s : String) : asString (.str s) = .ok s := rfl

@[simp] theorem asFields_obj (what : String) (fields : Fields) :
    asFields what (.obj fields) = .ok fields := rfl

variable {α : Type}

theorem asList_arr_map {β : Type} (e : α → Json) (d : Decoder β) (g : α → β) {l : List α}
    (h : ∀ a ∈ l, d (e a) = .ok (g a)) : asList d (.arr (l.map e)) = .ok (l.map g) := by
  change (l.map e).mapM d = .ok (l.map g)
  induction l with
  | nil => rfl
  | cons a rest ih =>
    have ha : d (e a) = .ok (g a) := h a mem_cons_self
    have hrest := ih (fun b hb => h b (mem_cons_of_mem a hb))
    simp only [map_cons, mapM_cons, ha, hrest]
    rfl

variable (d : Decoder α)

theorem asList_arr_error {items : List Json} {j : Json}
    (hj : j ∈ items) (h : ∃ message, d j = .error message) :
    ∃ message, asList d (.arr items) = .error message := by
  change ∃ message, items.mapM d = .error message
  induction items with
  | nil => simp at hj
  | cons i rest ih =>
    rw [mapM_cons]
    rcases mem_cons.mp hj with rfl | hrest
    · obtain ⟨message, hmessage⟩ := h
      exact ⟨message, by rw [hmessage]; rfl⟩
    · cases hi : d i with
      | error message => exact ⟨message, rfl⟩
      | ok a =>
        obtain ⟨message, hmessage⟩ := ih hrest
        exact ⟨message, by rw [hmessage]; rfl⟩

@[simp] theorem requiredField_head (name : String) (j : Json)
    (fields : Fields) : requiredField d name ((name, j) :: fields) = d j := by
  simp [requiredField]

@[simp] theorem requiredField_tail (name key : String) (j : Json)
    (fields : Fields) (h : name ≠ key) :
    requiredField d name ((key, j) :: fields) = requiredField d name fields := by
  have hkey : (name == key) = false := by simpa using h
  simp [requiredField, lookup_cons, hkey]

@[simp] theorem optionalField_tail (name key : String) (j : Json)
    (fields : Fields) (h : name ≠ key) :
    optionalField d name ((key, j) :: fields) = optionalField d name fields := by
  have hkey : (name == key) = false := by simpa using h
  simp [optionalField, lookup_cons, hkey]

variable (name : String)

@[simp] theorem optionalField_str (o : Option String) (fields : Fields) :
    optionalField asString name ((name, ofOption .str o) :: fields) = .ok o := by
  cases o <;> simp [optionalField, ofOption, Except.map]

@[simp] theorem optionalField_value (o : Option Json) (fields : Fields) :
    optionalField Except.ok name ((name, ofOption id o) :: fields) =
      .ok (o.filter (fun j => !isNull j)) := by
  cases o with
  | none => simp [optionalField, ofOption]
  | some j => cases j <;> simp [optionalField, ofOption, isNull, Except.map, Option.filter]

end IronGolem.JsonValues
