import IronGolem.JsonValues
import Mathlib.Data.List.Forall2

/-!
Carrying values from one program to another as JSON documents. The sender encodes a value and may
fail. The receiver reads the document within the limits of its parser, on nesting and on numbers,
and decodes what it has read, with the numbers as its parser makes them.
-/
namespace IronGolem.JsonTransfer

open JsonValues List

variable {α β : Type}

mutual

/-- The document has at most `limit` levels of nesting and only numbers that can be read. -/
def readable (number : ℚ → Bool) : ℕ → Json → Bool
  | _, .null => true
  | _, .bool _ => true
  | _, .str _ => true
  | _, .num value => number value
  | 0, .arr _ => false
  | 0, .obj _ => false
  | limit + 1, .arr items => readableItems number limit items
  | limit + 1, .obj fields => readableFields number limit fields

def readableItems (number : ℚ → Bool) : ℕ → List Json → Bool
  | _, [] => true
  | limit, item :: rest => readable number limit item && readableItems number limit rest

def readableFields (number : ℚ → Bool) : ℕ → List (String × Json) → Bool
  | _, [] => true
  | limit, (_, value) :: rest => readable number limit value && readableFields number limit rest

end

mutual

/-- The document with its numbers as the receiver reads them. -/
def reread (read : ℚ → ℚ) : Json → Json
  | .null => .null
  | .bool b => .bool b
  | .str text => .str text
  | .num value => .num (read value)
  | .arr items => .arr (rereadItems read items)
  | .obj fields => .obj (rereadFields read fields)

def rereadItems (read : ℚ → ℚ) : List Json → List Json
  | [] => []
  | item :: rest => reread read item :: rereadItems read rest

def rereadFields (read : ℚ → ℚ) : Fields → Fields
  | [] => []
  | (name, value) :: rest => (name, reread read value) :: rereadFields read rest

end

section

variable (read : ℚ → ℚ)

theorem rereadItems_eq_map (items : List Json) :
    rereadItems read items = items.map (reread read) := by
  induction items with
  | nil => rfl
  | cons item rest ih => rw [rereadItems, ih, map_cons]

/-- Reading changes values and no names. -/
@[simp] theorem lookup_rereadFields (name : String) (fields : Fields) :
    (rereadFields read fields).lookup name = (fields.lookup name).map (reread read) := by
  induction fields with
  | nil => rfl
  | cons field rest ih =>
    obtain ⟨key, value⟩ := field
    rw [rereadFields, lookup_cons, lookup_cons]
    cases name == key
    · exact ih
    · rfl

theorem rereadItems_texts (texts : List String) :
    rereadItems read (texts.map .str) = texts.map .str := by
  rw [rereadItems_eq_map, map_map]
  rfl

end

variable (number : ℚ → Bool) (read : ℚ → ℚ) (limit : ℕ) (text : String)

@[simp] theorem readable_str : readable number limit (.str text) = true := by
  cases limit <;> rfl

@[simp] theorem readable_null : readable number limit .null = true := by
  cases limit <;> rfl

@[simp] theorem readable_num (value : ℚ) : readable number limit (.num value) = number value := by
  cases limit <;> rfl

@[simp] theorem readable_obj (fields : Fields) :
    readable number (limit + 1) (.obj fields) = readableFields number limit fields := rfl

variable (items : List Json)

@[simp] theorem readable_arr :
    readable number (limit + 1) (.arr items) = readableItems number limit items := rfl

@[simp] theorem readableFields_nil : readableFields number limit [] = true := by
  rw [readableFields]

variable (name : String) (j : Json) (rest : Fields)

@[simp] theorem readableFields_cons : readableFields number limit ((name, j) :: rest) =
      (readable number limit j && readableFields number limit rest) := rfl

@[simp] theorem readableFields_append (fields more : Fields) :
    readableFields number limit (fields ++ more) =
      (readableFields number limit fields && readableFields number limit more) := by
  induction fields with
  | nil => rfl
  | cons field rest ih =>
    rw [cons_append, readableFields_cons, readableFields_cons, ih, Bool.and_assoc]

theorem readableItems_iff :
    readableItems number limit items = true ↔ ∀ j ∈ items, readable number limit j = true := by
  induction items with
  | nil => simp [readableItems]
  | cons j rest ih => simp [readableItems, ih]

/-- The receiver reads the document of `a` as `b`. -/
def Transfers (number : ℚ → Bool) (read : ℚ → ℚ) (limit : ℕ) (encode : α → Except String Json)
    (decode : Decoder β) (a : α) (b : β) : Prop :=
  ∃ j, encode a = .ok j ∧ readable number limit j = true ∧ decode (reread read j) = .ok b

def encodeList (encode : α → Except String Json) (l : List α) : Except String Json :=
  (l.mapM encode).map .arr

variable {ε : Type} (x : Except ε α)

variable (f : α → Except ε β)

theorem bind_eq_ok_iff (b : β) : (x >>= f) = .ok b ↔ ∃ a, x = .ok a ∧ f a = .ok b := by
  cases x with
  | error message | ok a => simp [bind, Except.bind]

theorem isOk_iff : x.isOk = true ↔ ∃ a, x = .ok a := by
  cases x with
  | error message | ok a => simp [Except.isOk, Except.toBool]

theorem map_eq_ok_iff (f : α → β) (b : β) : x.map f = .ok b ↔ ∃ a, x = .ok a ∧ f a = b := by
  cases x with
  | error message | ok a => simp [Except.map]

theorem mapM_eq_ok_iff (l : List α) (bs : List β) :
    l.mapM f = .ok bs ↔ List.Forall₂ (fun a b => f a = .ok b) l bs := by
  induction l generalizing bs with
  | nil => simp [pure, Except.pure, eq_comm]
  | cons a rest ih =>
    rw [mapM_cons, bind_eq_ok_iff]
    constructor
    · rintro ⟨b, hb, hrest⟩
      obtain ⟨bs', hbs', heq⟩ := (bind_eq_ok_iff _ _ _).mp hrest
      cases heq
      exact List.Forall₂.cons hb ((ih bs').mp hbs')
    · rintro (_ | ⟨hb, hrest⟩)
      refine ⟨_, hb, ?_⟩
      rw [(ih _).mpr hrest]
      rfl

/-- A list arrives exactly if its elements do. -/
theorem transfers_list (encode : α → Except String Json)
    (decode : Decoder β) (l : List α) (bs : List β) :
    Transfers number read (limit + 1) (encodeList encode) (asList decode) l bs ↔
      List.Forall₂ (Transfers number read limit encode decode) l bs := by
  unfold Transfers encodeList
  constructor
  · rintro ⟨j, hj, hread, hdecode⟩
    obtain ⟨items, hitems, rfl⟩ := (map_eq_ok_iff _ _ _).mp hj
    rw [readable_arr, readableItems_iff] at hread
    have hencode := (mapM_eq_ok_iff encode l items).mp hitems
    rw [reread, rereadItems_eq_map] at hdecode
    have hitem := (mapM_eq_ok_iff decode (items.map (reread read)) bs).mp hdecode
    clear hj hitems hdecode
    induction hencode generalizing bs with
    | nil =>
      cases hitem
      exact .nil
    | cons ha hrest ih =>
      cases hitem with
      | cons hb hbs =>
        refine .cons ⟨_, ha, hread _ mem_cons_self, hb⟩ (ih _ ?_ hbs)
        exact fun j hj => hread j (mem_cons_of_mem _ hj)
  · intro h
    induction h with
    | nil => exact ⟨.arr [], rfl, rfl, by simp [reread, rereadItems, asList, pure, Except.pure]⟩
    | cons hab hrest ih =>
      obtain ⟨j, ha, hread, hb⟩ := hab
      obtain ⟨js, hjs, hreads, hbs⟩ := ih
      obtain ⟨items, hitems, rfl⟩ := (map_eq_ok_iff _ _ _).mp hjs
      refine ⟨.arr (j :: items), ?_, ?_, ?_⟩
      · rw [mapM_cons, ha, hitems]
        rfl
      · rw [readable_arr, readableItems_iff] at hreads ⊢
        exact forall_mem_cons.mpr ⟨hread, hreads⟩
      · have hmap : (rereadItems read items).mapM decode = .ok _ := hbs
        rw [reread, rereadItems, asList, mapM_cons, hb, hmap]
        rfl

variable (name text : String)

def omitText : Fields := if text = "" then [] else [(name, .str text)]

def omitRaw : Option Json → Fields
  | none => []
  | some j => [(name, j)]

def fieldText : Option Json := if text ≠ "" then some (.str text) else none

@[simp] theorem lookup_omitText (key text : String) :
    (omitText key text).lookup name = if name = key then fieldText text else none := by
  unfold omitText fieldText
  by_cases htext : text = ""
  · simp [htext]
  · by_cases hname : name = key
    · simp [htext, hname]
    · have hkey : (name == key) = false := by simpa using hname
      simp [htext, hname, lookup_cons, hkey]

@[simp] theorem lookup_omitRaw (key : String) (raw : Option Json) :
    (omitRaw key raw).lookup name = if name = key then raw else none := by
  cases raw with
  | none => simp [omitRaw]
  | some j =>
    by_cases hname : name = key
    · simp [omitRaw, hname]
    · have hkey : (name == key) = false := by simpa using hname
      simp [omitRaw, hname, lookup_cons, hkey]

@[simp] theorem readableFields_omitText (text : String) :
    readableFields number limit (omitText name text) = true := by
  unfold omitText
  split <;> simp

@[simp] theorem readableFields_omitRaw (raw : Option Json) :
    readableFields number limit (omitRaw name raw) = raw.all (readable number limit) := by
  cases raw <;> simp [omitRaw]

def presentText : Option String := if text = "" then none else some text

theorem optionalField_text (text : String) (fields : Fields)
    (h : fields.lookup name = fieldText text) :
    optionalField asString name fields = .ok (presentText text) := by
  unfold optionalField
  rw [h]
  by_cases htext : text = "" <;> simp [fieldText, presentText, htext, Except.map]

theorem optionalField_raw {raw : Option Json} {fields : Fields} (h : fields.lookup name = raw) :
    optionalField Except.ok name fields = .ok (raw.filter (fun j => !isNull j)) := by
  unfold optionalField
  rw [h]
  cases raw with
  | none => rfl
  | some j => cases j <;> simp [isNull, Except.map, Option.filter]

@[simp] theorem reread_fieldText : (fieldText text).map (reread read) = fieldText text := by
  unfold fieldText
  split <;> rfl

/-- What stands for none is no number, so a value is read as it was if what is present is. -/
theorem reread_present_iff (raw : Option Json) :
    (raw.map (reread read)).filter (fun j => !isNull j) = raw.filter (fun j => !isNull j) ↔
      raw.map (reread read) = raw := by
  cases raw with
  | none => simp
  | some j => cases j <;> simp [reread, isNull, Option.filter]

def encodeSlice (encode : α → Except String Json) : Option (List α) → Except String Json
  | none => .ok .null
  | some l => encodeList encode l

def textField (fields : Fields) : Except String String :=
  (optionalField asString name fields).map (·.getD "")

def rawField (fields : Fields) : Option Json := fields.lookup name

end IronGolem.JsonTransfer
