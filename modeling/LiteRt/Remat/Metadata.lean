import LiteRt.Lib.Reader
import Mathlib.Algebra.Group.Nat.Defs

/-!
# Control dependencies in the model's metadata

Integers are written as varints in chunks of seven bits, signed ones after a zigzag
encoding, pairs as their elements, and vectors as their size, cut to 32 bits, and their
elements.
-/

namespace LiteRt.Remat

open LiteRt.Lib Reader

variable {value : UInt32} {n : UInt32} {α : Type} {parse : Reader UInt8 α}

abbrev ControlEdge := Int32 × Int32

abbrev ControlEdges := List ControlEdge

abbrev ModelControlDependencies := List ControlEdges

/-! ## Writing -/

def kMod : UInt32 := 128

/-- `Serialize` of an unsigned integer. -/
def serializeUnsigned (value : UInt32) : List UInt8 :=
  if kMod ≤ value then
    (value % kMod + kMod).toUInt8 :: serializeUnsigned (value / kMod)
  else
    [value.toUInt8]
termination_by value.toNat
decreasing_by
  rename_i h
  rw [UInt32.le_iff_toNat_le] at h
  rw [UInt32.toNat_div]
  exact Nat.div_lt_self (Nat.lt_of_lt_of_le (by decide) h) (by decide)

def zigzag (value : Int32) : UInt32 :=
  if value < 0 then (-(value + 1)).toUInt32 * 2 + 1 else value.toUInt32 * 2

def serializeSigned (value : Int32) : List UInt8 :=
  serializeUnsigned (zigzag value)

def serializePair (pair : ControlEdge) : List UInt8 :=
  serializeSigned pair.1 ++ serializeSigned pair.2

def serializeVector {α : Type} (serialize : α → List UInt8) (values : List α) : List UInt8 :=
  serializeUnsigned (UInt32.ofNat values.length) ++ values.flatMap serialize

def kModelControlDependenciesMetadataVersion : UInt32 := 1

def serializeModelControlDependencies (deps : ModelControlDependencies) : List UInt8 :=
  serializeUnsigned kModelControlDependenciesMetadataVersion ++
    serializeVector (serializeVector serializePair) deps

/-! ## Parsing -/

/-- The loop of `Parse` for an unsigned integer, with `size` cells left. -/
def parseUnsignedLoop (mul out : UInt32) :
    Nat → List UInt8 → Except Halt (UInt32 × Cursor UInt8)
  | 0, _ => .error .malformed
  | _ + 1, [] => .error .overrun
  | size + 1, byte :: data =>
    let out := out + byte.toUInt32 % kMod * mul
    if byte &&& 128 = 0 then .ok (out, ⟨data, size⟩)
    else parseUnsignedLoop (mul * kMod) out size data

def parseUnsigned : Reader UInt8 UInt32 :=
  fun cursor => parseUnsignedLoop 1 0 cursor.size cursor.data

def unzigzag (value : UInt32) : Int32 :=
  let magnitude := (value / 2).toInt32
  if value % 2 ≠ 0 then -magnitude - 1 else magnitude

def parseSigned : Reader UInt8 Int32 := do
  let value ← parseUnsigned
  return unzigzag value

def parsePair : Reader UInt8 ControlEdge := do
  let first ← parseSigned
  let second ← parseSigned
  return (first, second)

def parseVector {α : Type} (parse : Reader UInt8 α) : Reader UInt8 (List α) := do
  let numElems ← parseUnsigned
  times parse numElems.toNat

def parseModelControlDependencies : Reader UInt8 ModelControlDependencies := do
  let version ← parseUnsigned
  if version = kModelControlDependenciesMetadataVersion then
    let deps ← parseVector (parseVector parsePair)
    endOfData
    return deps
  else
    malformed

/-! ## Varints -/

theorem last_iff (byte : UInt8) : byte &&& 128 = 0 ↔ byte.toNat < 128 := by
  have h : ∀ n : Fin 256, n.val &&& 128 = 0 ↔ n.val < 128 := by decide +kernel
  rw [← UInt8.toNat_inj, UInt8.toNat_and]
  exact h ⟨byte.toNat, byte.toNat_lt⟩

theorem toNat_kMod : kMod.toNat = 128 := rfl

theorem split_chunk (value : UInt32) : value = value % kMod + value / kMod * kMod := by
  have h := value.toNat_lt
  rw [← UInt32.toNat_inj, UInt32.toNat_add, UInt32.toNat_mul, UInt32.toNat_mod,
    UInt32.toNat_div, toNat_kMod]
  omega

/-- What a chunk of a varint adds to the value. -/
theorem chunk_eq (value : UInt32) :
    (value % kMod + kMod).toUInt8.toUInt32 % kMod = value % kMod := by
  rw [← UInt32.toNat_inj]
  simp only [UInt32.toNat_mod, UInt8.toNat_toUInt32, UInt32.toNat_toUInt8, UInt32.toNat_add,
    toNat_kMod]
  omega

theorem chunk_not_last (value : UInt32) : (value % kMod + kMod).toUInt8 &&& 128 ≠ 0 := by
  rw [Ne, last_iff]
  simp only [UInt32.toNat_mod, UInt32.toNat_toUInt8, UInt32.toNat_add, toNat_kMod]
  omega

theorem last_chunk_eq (h : ¬ kMod ≤ value) :
    value.toUInt8.toUInt32 % kMod = value := by
  rw [UInt32.le_iff_toNat_le, toNat_kMod] at h
  rw [← UInt32.toNat_inj]
  simp only [UInt32.toNat_mod, UInt8.toNat_toUInt32, UInt32.toNat_toUInt8, toNat_kMod]
  omega

theorem last_chunk_last (h : ¬ kMod ≤ value) : value.toUInt8 &&& 128 = 0 := by
  rw [UInt32.le_iff_toNat_le, toNat_kMod] at h
  rw [last_iff, UInt32.toNat_toUInt8]
  omega

/-- The loop adds the value of the varint, shifted to the place it has come to. -/
theorem parseUnsignedLoop_serialize (value mul out : UInt32) (rest : List UInt8) :
    parseUnsignedLoop mul out (serializeUnsigned value ++ rest).length
        (serializeUnsigned value ++ rest)
      = .ok (out + value * mul, Cursor.whole rest) := by
  induction value using serializeUnsigned.induct generalizing mul out with
  | case1 value h ih =>
    rw [serializeUnsigned, if_pos h]
    simp only [List.cons_append, List.length_cons, parseUnsignedLoop, chunk_not_last, if_false,
      chunk_eq]
    rw [ih]
    have hsum : value % kMod * mul + value / kMod * (mul * kMod) = value * mul := by
      conv => rhs; rw [split_chunk value]
      grind
    rw [UInt32.add_assoc, hsum]
  | case2 value h =>
    rw [serializeUnsigned, if_neg h]
    simp only [List.cons_append, List.length_cons, List.nil_append, parseUnsignedLoop,
      last_chunk_last h, if_true, last_chunk_eq h]
    rfl

theorem parses_unsigned (value : UInt32) :
    Parses parseUnsigned (serializeUnsigned value) value := by
  intro rest
  have h := parseUnsignedLoop_serialize value 1 0 rest
  rw [UInt32.zero_add, UInt32.mul_one] at h
  exact h

/-! ## Signed integers -/

theorem toNat_toUInt32_lt {value : Int32} (h : 0 ≤ value.toInt) :
    value.toUInt32.toNat < 2 ^ 31 := by
  have hlt := value.toInt_lt
  have hcond : value.toInt = if 2 * value.toUInt32.toNat < 2 ^ 32 then
      (value.toUInt32.toNat : Int) else value.toUInt32.toNat - (2 ^ 32 : Nat) :=
    BitVec.toInt_eq_toNat_cond value.toBitVec
  have hnat := value.toUInt32.toNat_lt
  split at hcond <;> omega

theorem double_half (h : n.toNat < 2 ^ 31) : n * 2 / 2 = n ∧ n * 2 % 2 = 0 := by
  constructor
  · rw [← UInt32.toNat_inj, UInt32.toNat_div, UInt32.toNat_mul]
    simp only [UInt32.reduceToNat]
    omega
  · rw [← UInt32.toNat_inj, UInt32.toNat_mod, UInt32.toNat_mul]
    simp only [UInt32.reduceToNat]
    omega

theorem double_half_odd (h : n.toNat < 2 ^ 31) :
    (n * 2 + 1) / 2 = n ∧ (n * 2 + 1) % 2 = 1 := by
  constructor
  · rw [← UInt32.toNat_inj, UInt32.toNat_div, UInt32.toNat_add, UInt32.toNat_mul]
    simp only [UInt32.reduceToNat]
    omega
  · rw [← UInt32.toNat_inj, UInt32.toNat_mod, UInt32.toNat_add, UInt32.toNat_mul]
    simp only [UInt32.reduceToNat]
    omega

theorem unzigzag_zigzag (value : Int32) : unzigzag (zigzag value) = value := by
  have hlow := value.le_toInt
  unfold zigzag unzigzag
  by_cases h : value < 0
  · have hneg : value.toInt < 0 := Int32.lt_iff_toInt_lt.1 h
    have hpos : 0 ≤ (-(value + 1)).toInt := by
      rw [Int32.toInt_neg, Int32.toInt_add]
      simp only [Int32.reduceToInt, Int.bmod_def]
      omega
    obtain ⟨hdiv, hmod⟩ := double_half_odd (toNat_toUInt32_lt hpos)
    rw [if_pos h, hdiv, hmod, if_pos (by decide), Int32.toInt32_toUInt32]
    grind
  · have hpos : 0 ≤ value.toInt := by
      rw [Int32.lt_iff_toInt_lt] at h
      exact Int.not_lt.1 h
    obtain ⟨hdiv, hmod⟩ := double_half (toNat_toUInt32_lt hpos)
    rw [if_neg h, hdiv, hmod, if_neg (by decide), Int32.toInt32_toUInt32]

theorem parses_signed (value : Int32) : Parses parseSigned (serializeSigned value) value := by
  have h := (parses_unsigned (zigzag value)).map unzigzag
  rw [unzigzag_zigzag] at h
  exact h

/-! ## Pairs and vectors -/

theorem parses_pair (pair : ControlEdge) : Parses parsePair (serializePair pair) pair :=
  (parses_signed pair.1).bind ((parses_signed pair.2).map fun second => (pair.1, second))

/-- The size of a vector survives where 32 bits hold it. -/
theorem parses_vector {serialize : α → List UInt8} {values : List α} (hlen : values.length < 2 ^ 32)
    (h : ∀ value ∈ values, Parses parse (serialize value) value) :
    Parses (parseVector parse) (serializeVector serialize values) values := by
  refine (parses_unsigned _).bind ?_
  rw [UInt32.toNat_ofNat_of_lt' hlen]
  exact Parses.times h

/-! ## Staying in the metadata -/

theorem parseUnsignedLoop_safe (mul out : UInt32) (xs : List UInt8) :
    parseUnsignedLoop mul out xs.length xs ≠ .error .overrun ∧
      ∀ n c, parseUnsignedLoop mul out xs.length xs = .ok (n, c) →
        ∃ ys, ys <:+ xs ∧ c = Cursor.whole ys := by
  induction xs generalizing mul out with
  | nil =>
    constructor
    · intro h
      cases h
    · intro n c h
      cases h
  | cons byte data ih =>
    simp only [List.length_cons, parseUnsignedLoop]
    split
    · constructor
      · intro h
        cases h
      · intro n c h
        cases h
        exact ⟨data, List.suffix_cons byte data, rfl⟩
    · obtain ⟨hover, hok⟩ := ih (mul * kMod) (out + byte.toUInt32 % kMod * mul)
      refine ⟨hover, fun n c h => ?_⟩
      obtain ⟨ys, hys, hc⟩ := hok n c h
      exact ⟨ys, hys.trans (List.suffix_cons byte data), hc⟩

theorem safe_unsigned : Safe parseUnsigned fun _ => True := by
  intro xs
  obtain ⟨hover, hok⟩ := parseUnsignedLoop_safe 1 0 xs
  exact ⟨hover, fun n c h => ⟨trivial, hok n c h⟩⟩

theorem safe_signed : Safe parseSigned fun _ => True :=
  safe_unsigned.bind fun _ _ => safe_pure trivial

theorem safe_pair : Safe parsePair fun _ => True :=
  safe_signed.bind fun _ _ => safe_signed.bind fun _ _ => safe_pure trivial

/-- A vector has as many elements as a 32-bit number says. -/
theorem safe_vector {Q : α → Prop} (h : Safe parse Q) :
    Safe (parseVector parse) fun values =>
      values.length < 2 ^ 32 ∧ ∀ value ∈ values, Q value := by
  refine safe_unsigned.bind fun numElems _ => (h.times numElems.toNat).mono fun values hv => ?_
  refine ⟨?_, hv.2⟩
  rw [hv.1]
  exact numElems.toNat_lt

/-! ## The round trip -/

/-- Vectors whose sizes fit the 32 bits that are written. -/
def Countable (deps : ModelControlDependencies) : Prop :=
  deps.length < 2 ^ 32 ∧ ∀ edges ∈ deps, edges.length < 2 ^ 32

theorem safe_modelControlDependencies : Safe parseModelControlDependencies Countable := by
  refine safe_unsigned.bind fun version _ => ?_
  split
  · refine (safe_vector (safe_vector safe_pair)).bind fun deps hdeps => ?_
    refine safe_endOfData.bind fun _ _ => safe_pure ?_
    exact ⟨hdeps.1, fun edges h => (hdeps.2 edges h).1⟩
  · exact safe_malformed

theorem exhausts_modelControlDependencies : Exhausts parseModelControlDependencies := by
  refine Exhausts.bind fun version => ?_
  split
  · exact Exhausts.bind fun deps => exhausts_endOfData deps
  · exact exhausts_malformed

theorem parse_serialize {deps : ModelControlDependencies} (h : Countable deps) :
    parseModelControlDependencies (Cursor.whole (serializeModelControlDependencies deps))
      = .ok (deps, Cursor.whole []) := by
  have hdeps : Parses (parseVector (parseVector parsePair))
      (serializeVector (serializeVector serializePair) deps) deps :=
    parses_vector h.1 fun edges hedges =>
      parses_vector (h.2 edges hedges) fun pair _ => parses_pair pair
  have hversion := parses_unsigned kModelControlDependenciesMetadataVersion
    (serializeVector (serializeVector serializePair) deps)
  show (parseUnsigned _ >>= fun r => _) = _
  rw [serializeModelControlDependencies, hversion]
  exact hdeps.endOfData

/-- Parsing stays in the given size and succeeds on the whole input only; it gives written
control dependencies back exactly when the 32 bits of each vector's size hold it. -/
theorem modelControlDependencies_codec (deps : ModelControlDependencies) (bytes : List UInt8) :
    (parseModelControlDependencies
        (Cursor.whole (serializeModelControlDependencies deps)) = .ok (deps, Cursor.whole []) ↔
      Countable deps) ∧
    parseModelControlDependencies (Cursor.whole bytes) ≠ .error .overrun ∧
      ∀ deps c, parseModelControlDependencies (Cursor.whole bytes) = .ok (deps, c) →
        c = Cursor.whole [] := by
  refine ⟨⟨fun h => ?_, parse_serialize⟩, ?_⟩
  · exact ((safe_modelControlDependencies _).2 _ _ h).1
  · refine ⟨(safe_modelControlDependencies bytes).1, fun deps c h => ?_⟩
    obtain ⟨-, ys, -, rfl⟩ := (safe_modelControlDependencies bytes).2 deps c h
    have hsize := exhausts_modelControlDependencies _ _ _ h
    rw [List.length_eq_zero_iff.1 hsize]

/-- A model of 2^32 subgraphs without control edges is not read back. -/
theorem manySubgraphs_not_parsed :
    parseModelControlDependencies (Cursor.whole
        (serializeModelControlDependencies (List.replicate (2 ^ 32) [])))
      ≠ .ok (List.replicate (2 ^ 32) [], Cursor.whole []) := by
  intro h
  have hlen := ((safe_modelControlDependencies _).2 _ _ h).1.1
  rw [List.length_replicate] at hlen
  exact Nat.lt_irrefl _ hlen

end LiteRt.Remat
