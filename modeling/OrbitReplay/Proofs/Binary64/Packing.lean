import OrbitReplay.Proofs.Binary64.Value

namespace OrbitReplay.Binary64

open Float.Model Float.Model.UnpackedFloat

theorem unpackSign_packComponents {spec : Format} (s : Sign) (x : BitVec spec.exponentBits)
    (m : BitVec spec.mantissaBitsWithoutImplicit) :
    unpackSign (packComponents spec s x m) = s.toBitVec := by
  ext i hi
  obtain rfl : i = 0 := by omega
  simp [unpackSign, packComponents, BitVec.getLsbD_append, BitVec.getElem_append,
    BitVec.getLsbD_eq_getElem]

theorem packComponents_unpack {spec : Format} (b : BitVec spec.numBits) {s : Sign}
    (hs : s.toBitVec = unpackSign b) :
    packComponents spec s (unpackExponent b) (unpackMantissa b) = b := by
  have hm := spec.hm
  have he := spec.he
  ext i hi
  have hget {j : Nat} (hj : j = i) : b.getLsbD j = b[i] := by
    rw [hj]
    exact BitVec.getLsbD_eq_getElem hi
  simp only [packComponents, hs, unpackSign, unpackExponent, unpackMantissa, BitVec.getElem_append,
    BitVec.getElem_cast, BitVec.extractLsb, BitVec.getElem_extractLsb']
  split
  · exact hget (by omega)
  · split <;> exact hget (by omega)

theorem ofBitVec_toBitVec (s : Sign) : Sign.ofBitVec s.toBitVec = s := by
  cases s <;> rfl

theorem toBitVec_ofBitVec (b : BitVec 1) : (Sign.ofBitVec b).toBitVec = b := by
  rcases BitVec.eq_zero_or_eq_one b with rfl | rfl <;> rfl

theorem unpack_packComponents (s : Sign) (x : BitVec 11) (m : BitVec 52) :
    UnpackedFloat.unpack Format.binary64 (packComponents Format.binary64 s x m) =
      if x = -1#11 then if m = 0#52 then .infinity s else .notANumber
      else if x = 0#11 then
        if h : m = 0#52 then .zero s
        else .finite s m.toNat (-1074) (BitVec.toNat_pos_of_ne_zero h)
      else .finite s (2 ^ 52 + m.toNat) ((x.toNat : Int) - 1075) (by omega) := by
  have hbias : ((Format.binary64.exponentBias : Int) + (52 : Nat)) = 1075 := rfl
  have happend : (1#1 ++ m).toNat = 2 ^ 52 + m.toNat := by
    rw [BitVec.toNat_append, ← Nat.shiftLeft_add_eq_or_of_lt m.isLt]
    rfl
  simp only [UnpackedFloat.unpack, unpackSign_packComponents, unpackExponent_packComponents,
    unpackMantissa_packComponents, ofBitVec_toBitVec, hbias, happend]
  split
  · rfl
  · split
    · next hx =>
      subst hx
      rfl
    · rfl

theorem unpack_canonical (b : BitVec 64) : Canonical (UnpackedFloat.unpack Format.binary64 b) := by
  have hb := @packComponents_unpack Format.binary64 b _ (toBitVec_ofBitVec _)
  rw [← hb, unpack_packComponents]
  generalize @unpackExponent Format.binary64 b = x
  generalize @unpackMantissa Format.binary64 b = m
  have hm : m.toNat < 2 ^ 52 := m.isLt
  have hx : x.toNat < 2 ^ 11 := x.isLt
  split
  · split <;> exact trivial
  · next hmax =>
    split
    · split
      · exact trivial
      · exact ⟨⟨by omega, by decide, .inr rfl⟩, by decide⟩
    · next hzero =>
      have hmax' : x.toNat ≠ 2047 := fun h ↦ hmax (BitVec.eq_of_toNat_eq h)
      have hzero' : x.toNat ≠ 0 := fun h ↦ hzero (BitVec.eq_of_toNat_eq h)
      exact ⟨⟨by omega, by omega, .inl (by omega)⟩, by omega⟩

/-- A mantissa has all its digits exactly if it is normal. -/
theorem log2_add_one_eq {m : Nat} (hm : 0 < m) (hlt : m < 2 ^ 53) :
    m.log2 + 1 = Format.binary64.mantissaBits ↔ 2 ^ 52 ≤ m := by
  have hbits : Format.binary64.mantissaBits = 53 := rfl
  have hle : m.log2 ≤ 52 := Nat.le_of_lt_succ ((Nat.log2_lt hm.ne').2 hlt)
  rw [← Nat.le_log2 hm.ne']
  omega

theorem unpack_pack_finite (s : Sign) {m : Nat} {e : Int} (hm : 0 < m) (h : Shape m e) :
    UnpackedFloat.unpack Format.binary64 (UnpackedFloat.pack Format.binary64 (.finite s m e hm)) =
      if e ≤ 971 then .finite s m e hm else .infinity s := by
  have hlow := h.low
  have hlt := h.lt_two_pow
  have hbias :
      (e + (Format.binary64.exponentBias : Nat) + (52 : Nat)).toNat = (e + 1075).toNat := by
    have : (Format.binary64.exponentBias : Int) = 1023 := rfl
    omega
  simp only [UnpackedFloat.pack, hbias, log2_add_one_eq hm hlt]
  by_cases he : e ≤ 971
  · rw [if_pos he, if_neg (by omega)]
    split
    · next hnormal =>
      have hx : (BitVec.ofNat 11 (e + 1075).toNat).toNat = (e + 1075).toNat := by
        rw [BitVec.toNat_ofNat]
        exact Nat.mod_eq_of_lt (by omega)
      have hmax : BitVec.ofNat 11 (e + 1075).toNat ≠ -1#11 := by
        intro h'
        have h'' : (e + 1075).toNat = 2047 := by rw [← hx, h']; rfl
        omega
      have hzero : BitVec.ofNat 11 (e + 1075).toNat ≠ 0#11 := by
        intro h'
        have h'' : (e + 1075).toNat = 0 := by rw [← hx, h']; rfl
        omega
      have hmant : 2 ^ 52 + (BitVec.ofNat 52 m).toNat = m := by
        rw [BitVec.toNat_ofNat]
        omega
      rw [unpack_packComponents, if_neg hmax, if_neg hzero]
      congr 1
      rw [hx]
      omega
    · next hsub =>
      obtain rfl : e = -1074 := h.normal.resolve_left hsub
      have hmant : (BitVec.ofNat 52 m).toNat = m := by
        rw [BitVec.toNat_ofNat]
        exact Nat.mod_eq_of_lt (Nat.lt_of_not_le hsub)
      have hzero : BitVec.ofNat 52 m ≠ 0#52 := by
        intro h'
        rw [h'] at hmant
        exact hm.ne hmant
      rw [unpack_packComponents, if_neg (by decide), if_pos rfl, dif_neg hzero]
      congr 1
  · rw [if_neg he, if_pos (by omega), packedInfinity, unpack_packComponents]
    rfl

theorem unpack_pack {u : UnpackedFloat} (h : Canonical u) :
    UnpackedFloat.unpack Format.binary64 (UnpackedFloat.pack Format.binary64 u) = u := by
  cases u with
  | notANumber =>
    rw [UnpackedFloat.pack, packedNaN, unpack_packComponents]
    rfl
  | infinity s =>
    rw [UnpackedFloat.pack, packedInfinity, unpack_packComponents]
    rfl
  | zero s =>
    rw [UnpackedFloat.pack, packedZero, unpack_packComponents]
    rfl
  | finite s m e hm => rw [unpack_pack_finite s hm h.1, if_pos h.2]

theorem pack_unpack_packComponents (s : Sign) {x : BitVec 11} {m : BitVec 52}
    (hn : x = -1#11 → m ≠ 0#52 → packComponents Format.binary64 s x m = packedNaN Format.binary64) :
    UnpackedFloat.pack Format.binary64
      (UnpackedFloat.unpack Format.binary64 (packComponents Format.binary64 s x m)) =
      packComponents Format.binary64 s x m := by
  have hm : m.toNat < 2 ^ 52 := m.isLt
  have hx : x.toNat < 2 ^ 11 := x.isLt
  rw [unpack_packComponents]
  split
  · next hmax =>
    subst hmax
    split
    · next h =>
      rw [h]
      rfl
    · next h => rw [UnpackedFloat.pack, hn rfl h]
  · next hmax =>
    have hmax' : x.toNat ≠ 2047 := fun h ↦ hmax (BitVec.eq_of_toNat_eq h)
    have hbias : (Format.binary64.exponentBias : Int) = 1023 := rfl
    split
    · next hzero =>
      subst hzero
      split
      · next h =>
        rw [h]
        rfl
      · next h =>
        have hpos := BitVec.toNat_pos_of_ne_zero h
        simp only [UnpackedFloat.pack, log2_add_one_eq hpos (by omega)]
        rw [if_neg (by omega), if_neg (by omega), BitVec.ofNat_toNat, BitVec.setWidth_eq]
    · next hzero =>
      have hlt : 2 ^ 52 + m.toNat < 2 ^ 53 := by omega
      simp only [UnpackedFloat.pack, log2_add_one_eq (Nat.add_pos_left (by decide) _) hlt]
      rw [if_neg (by omega), if_pos (by omega)]
      congr 1
      · apply BitVec.eq_of_toNat_eq
        rw [BitVec.toNat_ofNat]
        omega
      · apply BitVec.eq_of_toNat_eq
        rw [BitVec.toNat_ofNat]
        omega

theorem pack_unpack {b : BitVec 64} (hb : Format.binary64.Valid b) :
    UnpackedFloat.pack Format.binary64 (UnpackedFloat.unpack Format.binary64 b) = b := by
  have hsplit := @packComponents_unpack Format.binary64 b _ (toBitVec_ofBitVec _)
  have hpack := pack_unpack_packComponents (Sign.ofBitVec (@unpackSign Format.binary64 b))
    (x := @unpackExponent Format.binary64 b)
    (m := @unpackMantissa Format.binary64 b) fun hx hm ↦ hsplit.trans (hb.eq_packedNaN hx hm)
  rwa [hsplit] at hpack

end OrbitReplay.Binary64
