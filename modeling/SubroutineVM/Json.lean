/-!
JSON text. Values are written on one line without spaces, or spread over lines with two spaces
more at each level; the fields of an object keep their order.
-/
namespace SubroutineVM.Json

inductive Value where
  | number (n : Nat)
  | text (s : String)
  | list (items : List Value)
  | object (fields : List (String × Value))

def escape (c : Char) : String :=
  match c.toNat with
  | 0x22 => "\\\""
  | 0x5c => "\\\\"
  | 0x08 => "\\b"
  | 0x09 => "\\t"
  | 0x0a => "\\n"
  | 0x0c => "\\f"
  | 0x0d => "\\r"
  | n =>
    if n < 0x20 then "\\u00" ++ String.ofList [Nat.digitChar (n / 16), Nat.digitChar (n % 16)]
    else String.singleton c

def quote (s : String) : String := "\"" ++ String.join (s.toList.map escape) ++ "\""

theorem sizeOf_field {fields : List (String × Value)} {field : String × Value}
    (h : field ∈ fields) : sizeOf field.2 < 1 + sizeOf fields := by
  have := List.sizeOf_lt_of_mem h
  cases field
  simp only [Prod.mk.sizeOf_spec] at this
  simp only
  omega

theorem sizeOf_item {items : List Value} {item : Value} (h : item ∈ items) :
    sizeOf item < 1 + sizeOf items := by
  have := List.sizeOf_lt_of_mem h
  omega

namespace Value

def compact : Value → String
  | .number n => toString n
  | .text s => quote s
  | .list items => "[" ++ ",".intercalate (items.attach.map fun ⟨item, _⟩ => item.compact) ++ "]"
  | .object fields =>
    "\x7b" ++ ",".intercalate (fields.attach.map fun ⟨field, _⟩ =>
      quote field.1 ++ ":" ++ field.2.compact) ++ "\x7d"
termination_by v => sizeOf v
decreasing_by
  · simpa using sizeOf_item ‹_›
  · simpa using sizeOf_field ‹_›

def block (indent opening closing : String) (items : List String) : String :=
  match items with
  | [] => opening ++ closing
  | _ =>
    opening ++ "\n" ++ ",\n".intercalate (items.map (indent ++ "  " ++ ·)) ++ "\n" ++ indent ++
      closing

/-- Written behind `indent`, which its own lines begin with. -/
def indented (indent : String) : Value → String
  | .number n => toString n
  | .text s => quote s
  | .list items =>
    block indent "[" "]" (items.attach.map fun ⟨item, _⟩ => item.indented (indent ++ "  "))
  | .object fields =>
    block indent "\x7b" "\x7d" (fields.attach.map fun ⟨field, _⟩ =>
      quote field.1 ++ ": " ++ field.2.indented (indent ++ "  "))
termination_by v => sizeOf v
decreasing_by
  · simpa using sizeOf_item ‹_›
  · simpa using sizeOf_field ‹_›

def pretty (v : Value) : String := v.indented ""

end Value

end SubroutineVM.Json
