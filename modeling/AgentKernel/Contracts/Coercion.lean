/-
  File:      AgentKernel/Contracts/Coercion.lean
  Subject:   What JavaScript makes of a value of JSON: its truth, its text and its properties.
-/
import AgentKernel.Contracts.Json

namespace AgentKernel

/-- The value as a condition. -/
def Json.truthy : Json → Bool
  | .null => false
  | .bool b => b
  | .num n => n.text ≠ "0"
  | .str s => s ≠ ""
  | .arr _ | .obj _ => true

mutual

/-- The text in a template, or that of the `TypeError`. -/
def Json.toText : Json → Except String String
  | .null => .ok "null"
  | .bool b => .ok (if b then "true" else "false")
  | .num n => .ok n.text
  | .str s => .ok s
  | .arr items => (joinTexts items).map (",".intercalate ·)
  | .obj fields =>
      -- a property of that name is no function
      if (fields.lookup "toString").isSome then .error "Cannot convert object to primitive value"
      else .ok "[object Object]"

/-- The texts that `join` takes. -/
def joinTexts : List Json → Except String (List String)
  | [] => .ok []
  | .null :: items => (joinTexts items).map ("" :: ·)
  | item :: items => do
      let text ← item.toText
      let texts ← joinTexts items
      .ok (text :: texts)

end

/-- The text of what may be `undefined`. -/
def coerce : Option Json → Except String String
  | none => .ok "undefined"
  | some j => j.toText

/-- A property of what may be `undefined`, or the text of the `TypeError`. -/
def readProperty (key : String) : Option Json → Except String (Option Json)
  | none => .error ("Cannot read properties of undefined (reading '" ++ key ++ "')")
  | some .null => .error ("Cannot read properties of null (reading '" ++ key ++ "')")
  | some j => .ok (j.property key)

@[simp] theorem coerce_str (s : String) : coerce (some (.str s)) = .ok s := rfl

@[simp] theorem readProperty_obj (key : String) (fields : List (String × Json)) :
    readProperty key (some (.obj fields)) = .ok (fields.lookup key) := rfl

end AgentKernel
