import Chromatin.Cli.Shapes
import Chromatin.Cli.Put
import Chromatin.Wire.Sample

/-!
# Client and node agree on wire shapes, but for the empty name

* `storeU32Be_eq`, `storeU64Be_eq`, `loadU16Be_eq` — the shifts of the client are the integers of
  the node
* `clientParse_eq` — the client's parser is the node's without the empty name
* `wire_shapes_iff` — where the two agree
-/

open Infra Util Wire

namespace Cli.Shapes

/-! ## Integers by shifts -/

theorem storeU32Be_eq (val : UInt32) : storeU32Be val = writeU32Be val := by
  have hdigit (k : Nat) (n : UInt32) (hk : n.toNat % 32 = 8 * k) :
      (val >>> n).toUInt8 = UInt8.ofNat (val.toNat / 256 ^ k) := by
    apply UInt8.toNat_inj.mp
    rw [UInt32.toNat_toUInt8, UInt32.toNat_shiftRight, hk, Nat.shiftRight_eq_div_pow, Nat.pow_mul]
    simp
  show [(val >>> 24).toUInt8, (val >>> 16).toUInt8, (val >>> 8).toUInt8, val.toUInt8] = _
  rw [hdigit 3 24 rfl, hdigit 2 16 rfl, hdigit 1 8 rfl]
  simp [writeU32Be, toBigEndian]

theorem storeU64Be_eq (val : UInt64) : storeU64Be val = writeU64Be val := by
  have hdigit (k : Nat) (n : UInt64) (hk : n.toNat % 64 = 8 * k) :
      (val >>> n).toUInt8 = UInt8.ofNat (val.toNat / 256 ^ k) := by
    apply UInt8.toNat_inj.mp
    rw [UInt64.toNat_toUInt8, UInt64.toNat_shiftRight, hk, Nat.shiftRight_eq_div_pow, Nat.pow_mul]
    simp
  unfold storeU64Be
  rw [hdigit 7 56 rfl, hdigit 6 48 rfl, hdigit 5 40 rfl, hdigit 4 32 rfl, hdigit 3 24 rfl,
    hdigit 2 16 rfl, hdigit 1 8 rfl]
  simp [writeU64Be, toBigEndian]

/-- The bits of the two bytes do not meet, so that the disjunction is a sum. -/
theorem toNat_loadU16Be (data : Bytes) (offset : Nat) :
    (loadU16Be data offset).toNat =
        (data.getD offset 0).toNat * 256 + (data.getD (offset + 1) 0).toNat := by
  have hhigh := (data.getD offset 0).toNat_lt
  have hlow := (data.getD (offset + 1) 0).toNat_lt
  rw [loadU16Be, UInt16.toNat_or, UInt16.toNat_shiftLeft]
  simp only [UInt8.toNat_toUInt16]
  have hshift : (data.getD offset 0).toNat <<< ((8 : UInt16).toNat % 16) % 2 ^ 16 =
      (data.getD offset 0).toNat <<< 8 := by
    show (data.getD offset 0).toNat <<< 8 % 2 ^ 16 = _
    rw [Nat.shiftLeft_eq, Nat.mod_eq_of_lt (by omega)]
  rw [hshift, ← Nat.shiftLeft_add_eq_or_of_lt hlow, Nat.shiftLeft_eq]

theorem loadU16Be_eq {data : Bytes} {offset : Nat} (h : offset + 2 ≤ data.length) :
    readU16Be data offset = some (loadU16Be data offset) := by
  obtain ⟨b₀, b₁, rest, hrest⟩ : ∃ b₀ b₁ rest, data.drop offset = b₀ :: b₁ :: rest := by
    rw [List.drop_eq_getElem_cons (by omega), List.drop_eq_getElem_cons (by omega)]
    exact ⟨_, _, _, rfl⟩
  have hfirst : data.getD offset 0 = b₀ := by
    rw [← Nat.add_zero offset, List.getD_eq_getElem?_getD, ← List.getElem?_drop, hrest]
    rfl
  have hsecond : data.getD (offset + 1) 0 = b₁ := by
    rw [List.getD_eq_getElem?_getD, ← List.getElem?_drop, hrest]
    rfl
  have hread : readFixed 2 data offset = some ⟨[b₀, b₁], rfl⟩ := by
    unfold readFixed
    simp [hrest]
  rw [readU16Be, hread]
  show some (UInt16.ofNat (ofBigEndian [b₀, b₁])) = _
  rw [Option.some_inj]
  apply UInt16.toNat_inj.mp
  have hb₀ := b₀.toNat_lt
  have hb₁ := b₁.toNat_lt
  rw [toNat_loadU16Be, hfirst, hsecond, UInt16.toNat_ofNat']
  show (b₀.toNat * 256 ^ 1 + (b₁.toNat * 256 ^ 0 + 0)) % 2 ^ 16 = _
  omega

/-! ## What both build -/

theorem clientMakeNameData_eq (name : Bytes) (targetHash : Hash32) :
    Cli.makeNameData name targetHash = Wire.makeNameData name targetHash := by
  unfold Cli.makeNameData Wire.makeNameData
  split_ifs with hlong
  · rfl
  · have hlength : (UInt16.ofNat name.length).toNat = name.length :=
      UInt16.toNat_ofNat_of_lt' (by simp only [UInt16.size]; omega)
    rw [writeU16Be, hlength]
    rfl

theorem clientMakeBombData_eq (targets : List Hash32) :
    makeBombData targets = Wire.makeBombData targets := by
  have hfold (pre : Bytes) :
      targets.foldl (fun result t => result ++ t.toList) pre = pre ++ encodeHashes targets := by
    induction targets generalizing pre with
    | nil => simp [encodeHashes]
    | cons t rest ih => rw [List.foldl_cons, ih, List.append_assoc]; rfl
  unfold makeBombData Wire.makeBombData
  rw [hfold, storeU32Be_eq, List.append_assoc]
  rfl

theorem clientSigningInput_eq (P : Primitives) (ns : Hash32) (data : Bytes) (ttl : UInt32)
    (timestamp : UInt64) :
    buildSigningInput P.sha3_256 ns data ttl timestamp =
        Wire.buildSigningInput P ns data ttl timestamp := by
  rw [buildSigningInput, Wire.buildSigningInput, storeU32Be_eq, storeU64Be_eq]
  rfl

/-! ## What both read -/

/-- **The client's parser is the node's, without the empty name.** -/
theorem clientParse_eq (data : Bytes) :
    parseNamePayload data = if nameLen data = 0 then none else Wire.parseNamePayload data := by
  by_cases hshort : data.length < kMin
  · rw [parseNamePayload, if_pos hshort]
    split_ifs with hzero
    · rfl
    · have hnot : isName data ≠ true := fun hname => by
        have hlength := length_of_isName hname
        simp only [kMin] at hshort
        omega
      rw [Wire.parseNamePayload, if_neg hnot]
  · have hsize : 39 ≤ data.length := not_lt.mp hshort
    have hlen : (loadU16Be data 4).toNat = nameLen data := by
      rw [nameLen, loadU16Be_eq (by omega), Option.getD_some]
    rw [parseNamePayload, if_neg hshort, Wire.parseNamePayload]
    simp only [hlen]
    -- the remaining checks of the two parsers are the same ones
    have hisName : isName data = true ↔ data.take 4 = Cli.NAME_MAGIC.toList ∧
        data.length = 4 + 2 + nameLen data + 32 := by
      have hmin : NAME_MIN_DATA_SIZE ≤ data.length := by simp only [NAME_MIN_DATA_SIZE]; omega
      simp only [isName, hmin, decide_true, Bool.true_and, Bool.and_eq_true, beq_iff_eq, hasMagic]
      rfl
    by_cases hmagic : data.take 4 = Cli.NAME_MAGIC.toList
    · by_cases hlength : data.length = 4 + 2 + nameLen data + 32
      · rw [if_neg (not_not.mpr hmagic), if_pos (hisName.mpr ⟨hmagic, hlength⟩),
          if_neg (not_not.mpr hlength)]
      · rw [if_neg (not_not.mpr hmagic), if_neg (fun h => hlength (hisName.mp h).2), if_pos hlength]
    · rw [if_pos hmagic, if_neg (fun h => hmagic (hisName.mp h).1), ite_self]

/-- The payload whose length field is zero and that ends behind the target. -/
def IsEmptyName (data : Bytes) : Prop :=
  data.length = 38 ∧ data.take 6 = [0x4E, 0x41, 0x4D, 0x45, 0, 0]

instance (data : Bytes) : Decidable (IsEmptyName data) := inferInstanceAs (Decidable (_ ∧ _))

theorem isEmptyName_iff (data : Bytes) : IsEmptyName data ↔
    isName data = true ∧ nameLen data = 0 := by
  by_cases hsize : data.length = 38
  · have hlen : nameLen data = (data.getD 4 0).toNat * 256 + (data.getD 5 0).toNat := by
      rw [nameLen, loadU16Be_eq (by omega), Option.getD_some, toNat_loadU16Be]
    have htake : data.take 6 = data.take 4 ++ [data.getD 4 0, data.getD 5 0] := by
      have h₄ : data[4]? = some (data.getD 4 0) := by simp [hsize]
      have h₅ : data[5]? = some (data.getD 5 0) := by simp [hsize]
      rw [List.take_add_one, List.take_add_one, h₄, h₅, List.append_assoc]
      rfl
    have hzero (b : UInt8) : b = 0 ↔ b.toNat = 0 := by rw [← UInt8.toNat_inj]; rfl
    have hlength : (data.take 4).length = Wire.NAME_MAGIC.length := by simp [hsize, Wire.NAME_MAGIC]
    have hsplit : data.take 6 = Wire.NAME_MAGIC ++ [0, 0] ↔
        data.take 4 = Wire.NAME_MAGIC ∧ nameLen data = 0 := by
      have hbytes : [data.getD 4 0, data.getD 5 0] = [0, 0] ↔ nameLen data = 0 := by
        simp only [List.cons.injEq, and_true, hzero, hlen]
        omega
      rw [htake, ← hbytes]
      constructor
      · intro h
        exact List.append_inj h hlength
      · rintro ⟨hmagic, hlast⟩
        rw [hmagic, hlast]
    have hname : isName data = true ↔ data.take 4 = Wire.NAME_MAGIC ∧ nameLen data = 0 := by
      simp [isName, hsize, NAME_MIN_DATA_SIZE, hasMagic]
    rw [hname, IsEmptyName]
    show data.length = 38 ∧ data.take 6 = Wire.NAME_MAGIC ++ [0, 0] ↔ _
    rw [hsplit]
    constructor
    · rintro ⟨-, hboth⟩
      exact ⟨hboth, hboth.2⟩
    · rintro ⟨hboth, -⟩
      exact ⟨hsize, hboth⟩
  · refine iff_of_false (fun h => hsize h.1) ?_
    rintro ⟨hname, hzero⟩
    exact hsize (by rw [length_of_isName hname, hzero])

theorem clientParse_eq_iff (data : Bytes) :
    parseNamePayload data = Wire.parseNamePayload data ↔ ¬ IsEmptyName data := by
  rw [clientParse_eq, isEmptyName_iff]
  constructor
  · rintro h ⟨hname, hzero⟩
    rw [if_pos hzero, Wire.parseNamePayload, if_pos hname] at h
    exact absurd h (by simp)
  · intro h
    split_ifs with hzero
    · have hnot : ¬ isName data = true := fun hname => h ⟨hname, hzero⟩
      rw [Wire.parseNamePayload, if_neg hnot]
    · rfl

/-! ## Agreement -/

/-- One argument for each of the shared functions. -/
structure Inputs where
  name : Bytes
  targetHash : Hash32
  targets : List Hash32
  targetNamespace : Hash32
  data : Bytes
  ttl : UInt32
  timestamp : UInt64
  /-- what the parsers are given -/
  payload : Bytes

/-- Client and node agree on the inputs, and what has been built is read back. -/
structure Agree (P : Primitives) (i : Inputs) : Prop where
  makeName : Cli.makeNameData i.name i.targetHash = Wire.makeNameData i.name i.targetHash
  makeBomb : makeBombData i.targets = Wire.makeBombData i.targets
  signingInput : buildSigningInput P.sha3_256 i.targetNamespace i.data i.ttl i.timestamp =
    Wire.buildSigningInput P i.targetNamespace i.data i.ttl i.timestamp
  parseName : parseNamePayload i.payload = Wire.parseNamePayload i.payload
  readName : ∀ bytes, Wire.makeNameData i.name i.targetHash = some bytes →
    Wire.parseNamePayload bytes = some ⟨i.name, i.targetHash⟩ ∧
    parseNamePayload bytes = some ⟨i.name, i.targetHash⟩
  readBomb : ∀ bytes, Wire.makeBombData i.targets = some bytes →
    isBomb bytes = true ∧ extractBombTargets bytes = i.targets

/-- **Client and node agree, and read back what they build, exactly on inputs without the empty
name**: neither is it built, nor is the payload that is parsed the one of the empty name. -/
theorem wire_shapes_iff (P : Primitives) (i : Inputs) :
    Agree P i ↔ i.name ≠ [] ∧ ¬ IsEmptyName i.payload := by
  constructor
  · intro h
    refine ⟨?_, (clientParse_eq_iff i.payload).mp h.parseName⟩
    -- the empty name is built, and the client does not read it back
    intro hempty
    obtain ⟨bytes, hbytes⟩ : ∃ bytes, Wire.makeNameData i.name i.targetHash = some bytes := by
      rw [hempty]
      exact ⟨_, rfl⟩
    have hread := (h.readName bytes hbytes).2
    have hzero : nameLen bytes = 0 := by rw [(parse_makeNameData hbytes).1, hempty]; rfl
    rw [clientParse_eq, if_pos hzero] at hread
    exact absurd hread (by simp)
  · rintro ⟨hname, hpayload⟩
    refine ⟨clientMakeNameData_eq _ _, clientMakeBombData_eq _, clientSigningInput_eq P _ _ _ _,
      (clientParse_eq_iff _).mpr hpayload, ?_, fun _ => bomb_makeBombData⟩
    intro bytes hbytes
    obtain ⟨hlen, hparse⟩ := parse_makeNameData hbytes
    refine ⟨hparse, ?_⟩
    rw [clientParse_eq, hlen, if_neg (fun h => hname (List.length_eq_zero_iff.mp h)), hparse]

/-- The client builds the payload of an empty name, the node accepts it, and the client does not. -/
theorem empty_name_rejected :
    ∃ bytes, Cli.makeNameData [] (Wire.Sample.owned 7) = some bytes ∧
      Wire.parseNamePayload bytes = some ⟨[], Wire.Sample.owned 7⟩ ∧
        parseNamePayload bytes = none :=
  ⟨_, rfl, by decide, by decide⟩

end Cli.Shapes
