import BMDaq.DataContainer

/-! # The configuration document

`ctx->bm_config_doc_` is a `Json::Value`, read through jsoncpp's accessors. An accessor used
on a value of the wrong type throws `Json::LogicError`, which is no `UFEError` and which no
hook catches: it is `none` here.
-/

namespace BMDaq

namespace Json

/-- A number keeps its value and the text `asString` gives for it. -/
inductive Value where
  | null
  | bool (b : Bool)
  | number (value : ℚ) (text : String)
  | string (text : String)
  | array (elements : List Value)
  | object (members : List (String × Value))

namespace Value

instance : Inhabited Value := ⟨.null⟩

/-- `value[key]`: a missing member reads as null. -/
def get (key : String) : Value → Option Value
  | null => some null
  | object members => some ((members.lookup key).getD null)
  | _ => none

def size : Value → Nat
  | array elements => elements.length
  | object members => members.length
  | _ => 0

/-- The values between `begin()` and `end()`. -/
def elements : Value → List Value
  | array elements => elements
  | object members => members.map Prod.snd
  | _ => []

def isMember (key : String) : Value → Option Bool
  | null => some false
  | object members => some (members.lookup key).isSome
  | _ => none

/-- `asInt()`: null is 0, a number outside the range of an `int` throws. -/
def asInt : Value → Option Int
  | null => some 0
  | bool b => some (if b then 1 else 0)
  | number value _ =>
      if -2 ^ 31 ≤ value ∧ value ≤ 2 ^ 31 - 1 then some (value.num.tdiv value.den) else none
  | _ => none

def asString : Value → Option String
  | null => some ""
  | bool b => some (if b then "true" else "false")
  | number _ text => some text
  | string text => some text
  | _ => none

end Value

end Json

/-- What the hooks use of a `UFEDevice`. -/
structure UFEDevice where
  boards : List Int
  device_descr_ : Json.Value

instance : Inhabited UFEDevice := ⟨[], .null⟩

namespace UFEDevice

/-- Whether the entry `d` of `Devices` lists exactly the boards of the device. -/
def describedBy (dev : UFEDevice) (d : Json.Value) : Option Bool := do
  let boards ← d.get "Boards"
  if boards.size ≠ dev.boards.length then
    return false
  let b_ids ← boards.elements.mapM fun b => do (← b.get "Id").asInt
  return b_ids.insertionSort (· ≥ ·) = dev.boards

/-- The loop of `setDeviceDescription` over the entries of `Devices`. -/
def describe (dev : UFEDevice) : List Json.Value → Option (Bool × UFEDevice)
  | [] => some (false, dev)
  | d :: rest => do
      if ← dev.describedBy d then
        return (true, { dev with device_descr_ := d })
      dev.describe rest

end UFEDevice

/-- `BMDIdle::setDeviceDescription`: the result and the device it leaves behind. -/
def setDeviceDescription (dev : UFEDevice) (bm_config_doc_ : Json.Value) :
    Option (Bool × UFEDevice) := do
  dev.describe (← bm_config_doc_.get "Devices").elements

/-- `board.isMember(key) && board[key].asString() != ""`, with the file where that holds. -/
def configurationFile (board : Json.Value) (key : String) : Option (Option String) := do
  if ← board.isMember key then
    let file ← (← board.get key).asString
    return if file ≠ "" then some file else none
  else
    return none

end BMDaq
