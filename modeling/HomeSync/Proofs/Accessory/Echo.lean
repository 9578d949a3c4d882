import HomeSync.Proofs.Accessory.Reports
import HomeSync.Proofs.Text.Utf8
import HomeSync.Proofs.Value.Integers

/-
Values that come back.

A device that is sent a value reports it again.  The text that is sent has one form for each
value, whatever the report looked like that the value was read from, and that form reads as the
value: `Value.parse_toWire`.  So a value that once counted as a report stays in place when it is
written and echoed.
-/
namespace HomeSync

/-- The values of a format. -/
def Format.Holds : Format → Value → Prop
  | .bool, .bool _ => True
  | .uint8, .int _ | .uint16, .int _ | .uint32, .int _ | .int32, .int _ => True
  | .float, .float _ => True
  | .string, .string _ => True
  | _, _ => False

namespace Value

variable {format : Format} {raw : String} {v : Value}

theorem holds_int (h : format.isWhole = true) (n : Int64) : format.Holds (.int n) := by
  cases format with
  | bool | float | string => exact Bool.noConfusion h
  | uint8 | uint16 | uint32 | int32 => trivial

/-! ## What was parsed is parsed again -/

theorem parse_bool_toWire (h : parse .bool raw = some v) :
    Format.bool.Holds v ∧ parse .bool v.toWire = some v := by
  have hflag : ∀ b : Bool, Format.bool.Holds (.bool b) ∧
      parse .bool (toWire (.bool b)) = some (.bool b) := by
    intro b
    cases b
    · exact ⟨trivial, by decide +kernel⟩
    · exact ⟨trivial, by decide +kernel⟩
  rw [parse] at h
  split at h
  · obtain rfl := Option.some.inj h
    exact hflag true
  · split at h
    · obtain rfl := Option.some.inj h
      exact hflag false
    · exact absurd h (by simp)

theorem parse_float (raw : String) : parse .float raw =
    ((Binary64.ofString? (Text.trim raw)).filter Binary64.isFinite).map .float := rfl

theorem toWire_float (x : Binary64) : toWire (.float x) = x.toText := rfl

/-- The text of a number reads back to it, and it has no blanks that could be trimmed. -/
theorem parse_float_toWire (h : parse .float raw = some v) :
    Format.float.Holds v ∧ parse .float v.toWire = some v := by
  rw [parse_float] at h
  obtain ⟨x, hx, rfl⟩ := Option.map_eq_some_iff.mp h
  obtain ⟨hread, hfinite⟩ := Option.filter_eq_some_iff.mp hx
  cases x with
  | nan => exact Bool.noConfusion hfinite
  | infinite negative => exact Bool.noConfusion hfinite
  | finite negative m e =>
    have hcanonical := Binary64.canonical_ofString? hread
    have htrim : Text.trim (Binary64.toText (.finite negative m e)) =
        Binary64.toText (.finite negative m e) :=
      Text.trim_of_not_blank fun c hc => Binary64.not_isBlank_of_mem_toText hc
    refine ⟨trivial, ?_⟩
    rw [toWire_float, parse_float, htrim, Binary64.ofString?_toText negative hcanonical]
    rfl

theorem parse_string (raw : String) : parse .string raw = some (.string (Text.trim raw)) := rfl

theorem parse_string_toWire (h : parse .string raw = some v) :
    Format.string.Holds v ∧ parse .string v.toWire = some v := by
  rw [parse_string, Option.some.injEq] at h
  subst h
  exact ⟨trivial, by rw [toWire, parse_string, Text.trim_trim]⟩

/-- The integer may have been a fraction in the report.  Its text is a numeral. -/
theorem parse_int_toWire (hformat : format.isWhole = true) (h : parse format raw = some v) :
    format.Holds v ∧ parse format v.toWire = some v := by
  rw [parse_of_isWhole hformat] at h
  obtain ⟨n, -, hn⟩ := Option.bind_eq_some_iff.mp h
  split at hn
  · obtain rfl := Option.some.inj hn
    have hrange : format.intRange.1 ≤ n ∧ n ≤ format.intRange.2 := by assumption
    have hwire : toWire (.int (Int64.ofInt n)) = toString n := by
      rw [toWire, toInt_ofInt_of_mem_intRange hformat hrange]
    refine ⟨holds_int hformat _, ?_⟩
    rw [hwire, parse_of_reports hformat (reports_toString n), if_pos hrange]
  · exact absurd hn (by simp)

theorem parse_toWire (h : parse format raw = some v) :
    format.Holds v ∧ parse format v.toWire = some v := by
  cases format with
  | bool => exact parse_bool_toWire h
  | float => exact parse_float_toWire h
  | string => exact parse_string_toWire h
  | uint8 | uint16 | uint32 | int32 => exact parse_int_toWire rfl h

end Value

namespace Characteristic

variable {c : Characteristic} {raw : String} {v : Value}

/-- Neither format nor bounds turn a value away that they have let in. -/
theorem reported?_toWire (h : c.reported? raw = some v) (w : Value) :
    { c with value := w }.reported? v.toWire = some v := by
  obtain ⟨hparse, hbounds⟩ := Option.filter_eq_some_iff.mp h
  show (Value.parse c.format v.toWire).filter c.inBounds = some v
  rw [(Value.parse_toWire hparse).2, Option.filter_some, if_pos hbounds]

/-- A value that counts as a report is one of the format, and its own text is a report of it,
whatever the value is by then.  So if it is written, and the device reports what it was sent, the
value is still the one that was written. -/
theorem value_of_echo (h : c.reported? raw = some v) :
    c.format.Holds v ∧ c.report raw = { c with value := v } ∧
    ∀ w : Value,
      { c with value := w }.reported? v.toWire = some v ∧
      { c with value := w }.report v.toWire = { c with value := v } ∧
      (c.writable = true → ∀ (f : Feature) (sent : Publication) (echo : Message),
        f.request v.toWire = .ok sent → echo.payload = sent.payload →
        (({ c with value := w } : Characteristic).write? v).map (·.report echo.text) =
          some { c with value := v }) := by
  obtain ⟨hparse, -⟩ := Option.filter_eq_some_iff.mp h
  have hecho : ∀ w : Value, { c with value := w }.report v.toWire = { c with value := v } := by
    intro w
    rw [report, reported?_toWire h w]
  refine ⟨(Value.parse_toWire hparse).1, by rw [report, h], fun w => ?_⟩
  refine ⟨reported?_toWire h w, hecho w, fun hwritable f sent echo hsent hpayload => ?_⟩
  have htext : echo.text = v.toWire := by
    rw [Feature.request, Feature.whenAttached] at hsent
    split at hsent
    · obtain rfl := Except.ok.inj hsent
      rw [Message.text, hpayload, Utf8.decodeLossy_encode]
    · exact absurd hsent (by simp)
  rw [write?, if_pos hwritable, Option.map_some, htext, hecho v]

def thermometer : Characteristic :=
  { typeCode := "35", format := .float, min := some (Binary64.ofInt (-10)), writable := true }

/-- Minus two and a half. -/
def frost : Value := .float (.finite true 5629499534213120 (-51))

theorem value_of_echo_thermometer :
    thermometer.report "\t-25e-1 " = { thermometer with value := frost } ∧
      (thermometer.write? frost).map
          (·.report (Message.text ⟨"get", Utf8.encode frost.toWire⟩)) =
        some { thermometer with value := frost } := by
  have hcounts : thermometer.reported? "\t-25e-1 " = some frost := by decide +kernel
  have hecho := value_of_echo hcounts
  refine ⟨hecho.2.1, ?_⟩
  exact (hecho.2.2 thermometer.value).2.2 rfl { owner := some "hall" }
    ⟨"", Utf8.encode frost.toWire, atLeastOnce, false⟩ ⟨"get", Utf8.encode frost.toWire⟩ rfl rfl

end Characteristic
end HomeSync
