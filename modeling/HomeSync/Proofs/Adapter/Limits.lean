import HomeSync.Adapter.Blueprint
import HomeSync.Proofs.Value.Integers

/-
Which integers a characteristic takes in.

The limits of a feature are integers of a machine word, but a characteristic keeps its bounds as
binary64 numbers, which may be rounded.  The integers of the formats are exact, and an exact
integer compares with a rounded one as with the integer that it was.  So a report of an integer
counts exactly if the format can hold it and it lies between the limits.
-/
namespace HomeSync

/-- The capability is one of integers, and these integers are its bounds. -/
structure Capability.Counts (c : Capability) (low high : ℤ) : Prop where
  isWhole : c.format.isWhole = true
  min : c.min = some (Binary64.ofInt low)
  max : c.max = some (Binary64.ofInt high)

/-- All bounds of integers in the table are integers. -/
theorem Capability.exists_counts {c : Capability} (hc : c ∈ table)
    (hwhole : c.format.isWhole = true) : ∃ low high, c.Counts low high := by
  have htable : ∀ c ∈ table, c.format.isWhole = true →
      (c.min.isSome ∧ (c.min.bind Binary64.round?).map Binary64.ofInt = c.min) ∧
        c.max.isSome ∧ (c.max.bind Binary64.round?).map Binary64.ofInt = c.max := by
    decide +kernel
  have hinteger : ∀ bound : Option Binary64,
      bound.isSome ∧ (bound.bind Binary64.round?).map Binary64.ofInt = bound →
      ∃ n, bound = some (Binary64.ofInt n) := by
    intro bound h
    obtain ⟨x, rfl⟩ := Option.isSome_iff_exists.mp h.1
    obtain ⟨n, -, hn⟩ := Option.map_eq_some_iff.mp h.2
    exact ⟨n, by rw [hn]⟩
  obtain ⟨hmin, hmax⟩ := htable c hc hwhole
  obtain ⟨low, hlow⟩ := hinteger c.min hmin
  obtain ⟨high, hhigh⟩ := hinteger c.max hmax
  exact ⟨low, high, hwhole, hlow, hhigh⟩

namespace Characteristic

/-- An exact integer lies within integer bounds, rounded or not, if it lies between the
integers. -/
theorem inBounds_int {c : Characteristic} {low high n : ℤ}
    (hmin : c.min = some (Binary64.ofInt low)) (hmax : c.max = some (Binary64.ofInt high))
    (hexact : -2 ^ 53 < n ∧ n < 2 ^ 53) {word : Int64} (hword : word.toInt = n) :
    c.inBounds (.int word) = true ↔ low ≤ n ∧ n ≤ high := by
  rw [inBounds, Value.toNumber?, hmin, hmax, hword]
  simp only [Option.all_some, Bool.and_eq_true]
  rw [(Binary64.le_ofInt_ofInt low hexact.1 hexact.2).1,
    (Binary64.le_ofInt_ofInt high hexact.1 hexact.2).2]

end Characteristic

namespace Binding

/-- A limit of the metadata, where zero means that there is none. -/
def limit (n : Option Int64) (fallback : ℤ) : ℤ :=
  match n with
  | some n => if n = 0 then fallback else n.toInt
  | none => fallback

theorem bound_ofInt (n : Option Int64) (fallback : ℤ) :
    bound n (some (Binary64.ofInt fallback)) = some (Binary64.ofInt (limit n fallback)) := by
  cases n with
  | none => rfl
  | some n =>
    rw [bound, limit]
    split <;> rfl

/-- The integers that the characteristic should take in, where the table has the bounds `low`
and `high`. -/
structure Admits (b : Binding) (low high n : ℤ) : Prop where
  inFormat : b.capability.format.intRange.1 ≤ n ∧ n ≤ b.capability.format.intRange.2
  atLeast : limit b.feature.min low ≤ n
  atMost : n ≤ limit b.feature.max high

variable {b : Binding} {low high n : ℤ} {raw : String}

theorem characteristic_bounds (h : b.capability.Counts low high) :
    b.characteristic.min = some (Binary64.ofInt (limit b.feature.min low)) ∧
      b.characteristic.max = some (Binary64.ofInt (limit b.feature.max high)) := by
  have hnumeric : b.capability.isNumeric = true := Value.isNumeric_of_isWhole h.isWhole
  have hmin : b.characteristic.min =
      if b.capability.isNumeric then bound b.feature.min b.capability.min
      else b.capability.min := rfl
  have hmax : b.characteristic.max =
      if b.capability.isNumeric then bound b.feature.max b.capability.max
      else b.capability.max := rfl
  rw [hmin, hmax, if_pos hnumeric, if_pos hnumeric, h.min, h.max, bound_ofInt, bound_ofInt]
  exact ⟨rfl, rfl⟩

/-- The bounds let an integer of the format pass if it lies between the limits. -/
theorem inBounds_characteristic (h : b.capability.Counts low high) (v : Value)
    (hin : b.capability.format.intRange.1 ≤ n ∧ n ≤ b.capability.format.intRange.2) :
    { b.characteristic with value := v }.inBounds (.int (Int64.ofInt n)) = true ↔
      limit b.feature.min low ≤ n ∧ n ≤ limit b.feature.max high := by
  have hrange := Value.intRange_of_isWhole h.isWhole
  have hlimits := characteristic_bounds h
  exact Characteristic.inBounds_int (c := { b.characteristic with value := v }) hlimits.1
    hlimits.2 ⟨by omega, by omega⟩ (Value.toInt_ofInt_of_mem_intRange h.isWhole hin)

/-- What a characteristic makes of a report of an integer, whatever its value is. -/
theorem reported?_of_admits (h : b.capability.Counts low high) (hraw : Value.Reports raw n)
    (v : Value) (hn : b.Admits low high n) :
    { b.characteristic with value := v }.reported? raw = some (.int (Int64.ofInt n)) := by
  have hbounds := (inBounds_characteristic h v hn.inFormat).mpr ⟨hn.atLeast, hn.atMost⟩
  show (Value.parse b.capability.format raw).filter _ = _
  rw [Value.parse_of_reports h.isWhole hraw, if_pos hn.inFormat, Option.filter_some,
    if_pos hbounds]

theorem reported?_of_not_admits (h : b.capability.Counts low high) (hraw : Value.Reports raw n)
    (v : Value) (hn : ¬ b.Admits low high n) :
    { b.characteristic with value := v }.reported? raw = none := by
  show (Value.parse b.capability.format raw).filter _ = _
  rw [Value.parse_of_reports h.isWhole hraw]
  by_cases hin : b.capability.format.intRange.1 ≤ n ∧ n ≤ b.capability.format.intRange.2
  · have hbounds := inBounds_characteristic h v hin
    rw [if_pos hin, Option.filter_some, if_neg]
    intro hyes
    obtain ⟨hlow, hhigh⟩ := hbounds.mp hyes
    exact hn ⟨hin, hlow, hhigh⟩
  · rw [if_neg hin]
    rfl

/-- Integers are taken in exactly within the format and the limits.  The bounds of the table are
integers, and with such bounds a report of an integer, however long, counts if and only if the
integer is admitted.  Then it is the value, and otherwise nothing changes. -/
theorem report_integer :
    (∀ c ∈ Capability.table, c.format.isWhole = true → ∃ low high, c.Counts low high) ∧
    ∀ (b : Binding) (low high : ℤ), b.capability.Counts low high →
      ∀ (raw : String) (n : ℤ), Value.Reports raw n → ∀ v : Value,
        (({ b.characteristic with value := v }.reported? raw).isSome = true ↔
          b.Admits low high n) ∧
        (b.Admits low high n →
          { b.characteristic with value := v }.report raw =
              { b.characteristic with value := .int (Int64.ofInt n) } ∧
            (Int64.ofInt n).toInt = n) ∧
        (¬ b.Admits low high n →
          { b.characteristic with value := v }.report raw =
            { b.characteristic with value := v }) := by
  refine ⟨fun c hc hwhole => Capability.exists_counts hc hwhole, ?_⟩
  intro b low high h raw n hraw v
  by_cases hn : b.Admits low high n
  · have hreported := reported?_of_admits h hraw v hn
    refine ⟨⟨fun _ => hn, fun _ => by rw [hreported]; rfl⟩, fun _ => ⟨?_, ?_⟩,
      fun hout => absurd hn hout⟩
    · rw [Characteristic.report, hreported]
    · exact Value.toInt_ofInt_of_mem_intRange h.isWhole hn.inFormat
  · have hreported := reported?_of_not_admits h hraw v hn
    refine ⟨⟨fun hsome => ?_, fun hin => absurd hin hn⟩, fun hin => absurd hin hn, fun _ => ?_⟩
    · rw [hreported] at hsome
      exact absurd hsome (by decide)
    · rw [Characteristic.report, hreported]

/-- A brightness that starts at ten, and has a maximum that binary64 cannot hold. -/
def dimmer : Binding :=
  ⟨{ min := some 10, max := some 9007199254740993 },
    .ranged "brightness" "8" .int32 (Capability.whole 0) (Capability.whole 100)
      (Capability.whole 1) true⟩

theorem report_integer_dimmer :
    dimmer.characteristic.report " +42\n" = { dimmer.characteristic with value := .int 42 } ∧
      dimmer.characteristic.report "7" = dimmer.characteristic := by
  have hcounts : dimmer.capability.Counts 0 100 := ⟨rfl, by decide +kernel, by decide +kernel⟩
  have hnumeral : Value.Numeral ['+', '4', '2'] 42 :=
    .plus (List.cons_ne_nil _ _) (List.all_eq_true.mp rfl)
  have hshort : Value.Numeral ['7'] 7 := .bare (List.cons_ne_nil _ _) (List.all_eq_true.mp rfl)
  have hin := report_integer.2 dimmer 0 100 hcounts " +42\n" 42
    ⟨[' '], ['+', '4', '2'], ['\n'], rfl, List.all_eq_true.mp rfl, List.all_eq_true.mp rfl,
      hnumeral⟩ dimmer.characteristic.value
  have hout := report_integer.2 dimmer 0 100 hcounts "7" 7
    ⟨[], ['7'], [], rfl, List.forall_mem_nil _, List.forall_mem_nil _, hshort⟩
    dimmer.characteristic.value
  refine ⟨(hin.2.1 ⟨?_, ?_, ?_⟩).1, hout.2.2 fun hadmits => ?_⟩
  · decide
  · decide
  · decide
  · exact absurd hadmits.atLeast (by decide)

end Binding
end HomeSync
