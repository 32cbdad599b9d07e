import Xotero.Json.Value

/-!
PostgreSQL's jsonb: the form a value takes when it is stored, the operators the
statements use, and the expressions of the generated columns of `object`.
-/

namespace Xotero

/-- jsonb orders the members of an object by the length of the name in bytes,
then by its bytes. -/
def nameBefore (m n : String) : Bool :=
  m.utf8ByteSize < n.utf8ByteSize || (m.utf8ByteSize = n.utf8ByteSize && m < n)

namespace Members

def place (name : String) (value : Value) : Members → Members
  | [] => [(name, value)]
  | (n, v) :: ms =>
      if n = name then (name, value) :: ms
      else if nameBefore name n then (name, value) :: (n, v) :: ms
      else (n, v) :: place name value ms

theorem get_place (name : String) (value : Value) (ms : Members) (n : String) :
    (ms.place name value).get n = if name = n then some value else ms.get n := by
  induction ms with
  | nil => rfl
  | cons m ms ih =>
      obtain ⟨m, v⟩ := m
      by_cases hm : m = name
      · subst hm
        by_cases hn : m = n <;> simp [place, get, hn]
      · cases hb : nameBefore name m with
        | true => simp [place, get, hm, hb]
        | false =>
            by_cases hn : m = n
            · subst hn
              simp [place, get, hm, hb, Ne.symm hm]
            · simp [place, get, hm, hb, hn, ih]

/-- `ms || ms'`: the members of both, those of `ms'` winning. -/
def concat (ms : Members) : Members → Members
  | [] => ms
  | (n, v) :: ms' => place n v (concat ms ms')

theorem get_concat (ms ms' : Members) (n : String) :
    (ms.concat ms').get n = (ms'.get n).or (ms.get n) := by
  induction ms' with
  | nil => rfl
  | cons m ms' ih =>
      by_cases h : m.1 = n <;> simp [concat, get, get_place, h, ih]

end Members

namespace Value

mutual

/-- The value as jsonb stores it. -/
def toJsonb : Value → Value
  | .array vs => .array (toJsonbAll vs)
  | .object ms => .object (toJsonbMembers ms)
  | .null => .null
  | .bool b => .bool b
  | .number n => .number n
  | .string s => .string s

def toJsonbAll : List Value → List Value
  | [] => []
  | v :: vs => v.toJsonb :: toJsonbAll vs

def toJsonbMembers : Members → Members
  | [] => []
  | (n, v) :: ms => Members.place n v.toJsonb (toJsonbMembers ms)

end

theorem get_toJsonbMembers (ms : Members) (n : String) :
    Members.get (toJsonbMembers ms) n = (ms.get n).map toJsonb := by
  induction ms with
  | nil => rfl
  | cons m ms ih =>
      obtain ⟨m, v⟩ := m
      by_cases h : m = n <;> simp [toJsonbMembers, Members.get, Members.get_place, h, ih]

theorem get_toJsonb (v : Value) (n : String) : v.toJsonb.get n = (v.get n).map toJsonb := by
  cases v with
  | object ms => exact get_toJsonbMembers ms n
  | null | bool _ | number _ | string _ | array _ => simp [toJsonb, get]

@[simp] theorem asStr_toJsonb (v : Value) : v.toJsonb.asStr = v.asStr := by
  cases v <;> simp [toJsonb, asStr]

theorem get_toJsonb_asStr (v : Value) (n : String) :
    (v.toJsonb.get n).bind asStr = (v.get n).bind asStr := by
  rw [get_toJsonb]
  cases v.get n <;> simp

/-- jsonb's `||`: objects are merged, anything else is joined as arrays. -/
def concat : Value → Value → Value
  | .object ms, .object ms' => .object (Members.concat ms ms')
  | .array vs, .array vs' => .array (vs ++ vs')
  | .array vs, v => .array (vs ++ [v])
  | v, .array vs => .array (v :: vs)
  | v, v' => .array [v, v']

/-- `jsonb_set(data, '{name}', value)` of an object. -/
def set (data : Value) (name : String) (value : Value) : Value :=
  match data with
  | .object ms => .object (Members.place name value ms)
  | v => v

/-! The text of a value, for `->>` -/

def escape (c : Char) : List Char :=
  if c = '"' then ['\\', '"']
  else if c = '\\' then ['\\', '\\']
  else if c = '\n' then ['\\', 'n']
  else if c = '\r' then ['\\', 'r']
  else if c = '\t' then ['\\', 't']
  else if c.toNat = 8 then ['\\', 'b']
  else if c.toNat = 12 then ['\\', 'f']
  else if c.toNat < 32 then
    ['\\', 'u', '0', '0', Nat.digitChar (c.toNat / 16), Nat.digitChar (c.toNat % 16)]
  else [c]

def quote (s : String) : String := String.ofList ('"' :: s.toList.flatMap escape ++ ['"'])

mutual

def toText : Value → String
  | .null => "null"
  | .bool b => toString b
  | .number (.int n) => toString n
  | .number (.float text) => text
  | .string s => quote s
  | .array vs => "[" ++ textOfAll vs ++ "]"
  | .object ms => "\x7b" ++ textOfMembers ms ++ "\x7d"

def textOfAll : List Value → String
  | [] => ""
  | [v] => v.toText
  | v :: vs => v.toText ++ ", " ++ textOfAll vs

def textOfMembers : Members → String
  | [] => ""
  | [(n, v)] => quote n ++ ": " ++ v.toText
  | (n, v) :: ms => quote n ++ ": " ++ v.toText ++ ", " ++ textOfMembers ms

end

def asText : Value → Option String
  | .null => none
  | .string s => some s
  | v => some v.toText

/-- `data ->> name` -/
def getText (data : Value) (name : String) : Option String := (data.get name).bind asText

/-- The elements of `data -> name` when that is an array. -/
def elements (data : Value) (name : String) : List Value :=
  match data.get name with
  | some (.array vs) => vs
  | _ => []

/-! Generated columns -/

def itemType (data : Value) : Option String := data.getText "itemType"

def isTop (data : Value) : Bool :=
  (data.getText "parentItem").getD "" = "" || (data.getText "parentItem").getD "" = "false"

def deleted (data : Value) : Bool :=
  (data.getText "deleted").getD "0" = "1" || (data.getText "deleted").getD "0" = "true"

/-- An element that is not an object, or has no tag, names none. -/
def tagNames (data : Value) : List String :=
  (data.elements "tags").filterMap fun t =>
    match t with
    | .object ms => (Value.object ms).getText "tag"
    | _ => none

end Value

theorem isStoredFileAttachment_toJsonb (v : Value) :
    isStoredFileAttachment v.toJsonb = isStoredFileAttachment v := by
  simp only [isStoredFileAttachment, Value.get_toJsonb_asStr]

end Xotero
