import Mathlib.Data.Nat.Digits.Defs
import PbsGui.Engine.Discovery

/-!
# Subnets to scan

`expand_target` (`ssrp.rs`) masks an address to the first of its subnet and counts up from
there.  The first address is a multiple of the size of the subnet, which divides the number of
all addresses, so the count stays below that number even in the highest subnet.
-/

namespace PbsGui.Engine.Discovery

open Lib List

/-- The text of a target is read as an address and a length. -/
def SubnetTarget (target : List Char) (ip : UInt32) (length : Nat) : Prop :=
  ∃ net text, splitOnce '/' (Lib.trim target) = some (net, text) ∧
    parseIpv4Addr (Lib.trim net) = some ip ∧ fromStrRadix 10 (2 ^ 32) (Lib.trim text) = some length

def InSubnet (length : Nat) (ip address : UInt32) : Prop :=
  ∀ i < length, address.toBitVec.getMsbD i = ip.toBitVec.getMsbD i

def subnetBase (ip : UInt32) (length : Nat) : UInt32 :=
  ip &&& (0xFFFFFFFF <<< UInt32.ofNat (32 - length))

theorem expandTarget_eq {target : List Char} {ip : UInt32} {length : Nat}
    (h : SubnetTarget target ip length) :
    expandTarget target = (expandSubnet ip length).map ipv4Text := by
  obtain ⟨net, text, hsplit, hip, hlength⟩ := h
  simp only [expandTarget, hsplit, hip, hlength]

section Range

variable {ip address : UInt32} {length : Nat}

theorem inSubnet_iff_div (hlength : length ≤ 32) :
    InSubnet length ip address ↔
      address.toNat / 2 ^ (32 - length) = ip.toNat / 2 ^ (32 - length) := by
  have hbit : ∀ (number : UInt32) i, i < 32 →
      number.toBitVec.getMsbD i = number.toNat.testBit (31 - i) := by
    intro number i hi
    rw [BitVec.getMsbD_eq_getLsbD, decide_eq_true hi, Bool.true_and]
    rfl
  constructor
  · intro h
    refine Nat.eq_of_testBit_eq fun j => ?_
    rw [Nat.testBit_div_two_pow, Nat.testBit_div_two_pow]
    by_cases hj : j + (32 - length) < 32
    · have hagree := h (31 - (j + (32 - length))) (by omega)
      rw [hbit _ _ (by omega), hbit _ _ (by omega)] at hagree
      rwa [show 31 - (31 - (j + (32 - length))) = j + (32 - length) by omega] at hagree
    · have hhigh : ∀ number : UInt32, number.toNat.testBit (j + (32 - length)) = false :=
        fun number => Nat.testBit_lt_two_pow
          (Nat.lt_of_lt_of_le number.toNat_lt (Nat.pow_le_pow_right (by decide) (by omega)))
      rw [hhigh, hhigh]
  · intro h i hi
    have hbits := congrArg (Nat.testBit · (length - 1 - i)) h
    simp only [Nat.testBit_div_two_pow] at hbits
    rw [hbit _ _ (by omega), hbit _ _ (by omega)]
    rwa [show length - 1 - i + (32 - length) = 31 - i by omega] at hbits

theorem subnetBase_toNat (hlength : 22 ≤ length) :
    (subnetBase ip length).toNat = ip.toNat / 2 ^ (32 - length) * 2 ^ (32 - length) := by
  refine Nat.eq_of_testBit_eq fun i => ?_
  have hones : (0xFFFFFFFF : UInt32).toNat = 2 ^ 32 - 1 := rfl
  have hbits : (UInt32.ofNat (32 - length)).toNat % 32 = 32 - length := by
    rw [UInt32.toNat_ofNat_of_lt' (Nat.lt_of_le_of_lt (Nat.sub_le _ _) (by decide)),
      Nat.mod_eq_of_lt (by omega)]
  have hip : 32 ≤ i → ip.toNat.testBit i = false := fun hi => Nat.testBit_lt_two_pow
    (Nat.lt_of_lt_of_le ip.toNat_lt (Nat.pow_le_pow_right (by decide) hi))
  rw [subnetBase, UInt32.toNat_and, UInt32.toNat_shiftLeft, hones, hbits, Nat.testBit_and,
    Nat.testBit_mod_two_pow, Nat.testBit_shiftLeft, Nat.testBit_two_pow_sub_one,
    Nat.testBit_mul_two_pow, Nat.testBit_div_two_pow]
  by_cases hlow : 32 - length ≤ i
  · by_cases hhigh : i < 32
    · simp [hlow, hhigh, show i - (32 - length) < 32 by omega]
    · simp [hlow, hip (by omega)]
  · simp [hlow]

variable (hlength : 22 ≤ length ∧ length ≤ 32)

include hlength

theorem subnetBase_add_le : (subnetBase ip length).toNat + 2 ^ (32 - length) ≤ 2 ^ 32 := by
  have hwhole : 2 ^ 32 = 2 ^ length * 2 ^ (32 - length) := by
    rw [← Nat.pow_add, Nat.add_sub_cancel' hlength.2]
  have hquotient : ip.toNat / 2 ^ (32 - length) < 2 ^ length :=
    Nat.div_lt_of_lt_mul (by rw [Nat.mul_comm, ← hwhole]; exact ip.toNat_lt)
  rw [subnetBase_toNat hlength.1, ← Nat.succ_mul, hwhole]
  exact Nat.mul_le_mul_right _ hquotient

theorem inSubnet_iff_range :
    InSubnet length ip address ↔ (subnetBase ip length).toNat ≤ address.toNat ∧
      address.toNat < (subnetBase ip length).toNat + 2 ^ (32 - length) := by
  have hsize : 0 < 2 ^ (32 - length) := Nat.two_pow_pos _
  rw [inSubnet_iff_div hlength.2, subnetBase_toNat hlength.1, Nat.div_eq_iff hsize]
  omega

theorem expandSubnet_eq :
    expandSubnet ip length = (if length ≤ 30 then List.range' 1 (2 ^ (32 - length) - 1 - 1)
      else List.range' 0 (2 ^ (32 - length) - 0)).map
        fun i => subnetBase ip length + UInt32.ofNat i := by
  rw [expandSubnet, if_pos hlength]
  simp only [Nat.shiftLeft_eq, Nat.one_mul]
  split <;> rfl

theorem toNat_subnetBase_add {i : Nat} (hi : i < 2 ^ (32 - length)) :
    (subnetBase ip length + UInt32.ofNat i).toNat = (subnetBase ip length).toNat + i := by
  have hbelow := @subnetBase_add_le ip length hlength
  rw [UInt32.toNat_add, UInt32.toNat_ofNat_of_lt' (show i < 2 ^ 32 by omega),
    Nat.mod_eq_of_lt (by omega)]

theorem mem_expandSubnet :
    address ∈ expandSubnet ip length ↔ ∃ i < 2 ^ (32 - length),
      address.toNat = (subnetBase ip length).toNat + i ∧
        (length ≤ 30 → 0 < i ∧ i + 1 < 2 ^ (32 - length)) := by
  rw [expandSubnet_eq hlength, mem_map]
  constructor
  · rintro ⟨i, hi, rfl⟩
    have hrange : i < 2 ^ (32 - length) ∧ (length ≤ 30 → 0 < i ∧ i + 1 < 2 ^ (32 - length)) := by
      split at hi <;> rw [mem_range'_1] at hi <;> omega
    exact ⟨i, hrange.1, toNat_subnetBase_add hlength hrange.1, hrange.2⟩
  · rintro ⟨i, hi, haddress, hends⟩
    refine ⟨i, ?_, UInt32.toNat_inj.mp ((toNat_subnetBase_add hlength hi).trans haddress.symm)⟩
    split <;> rw [mem_range'_1] <;> omega

theorem expandSubnet_rising : (expandSubnet ip length).Pairwise (· < ·) := by
  have hrange : (if length ≤ 30 then range' 1 (2 ^ (32 - length) - 1 - 1)
      else range' 0 (2 ^ (32 - length) - 0)).Pairwise fun i j =>
        i < j ∧ j < 2 ^ (32 - length) := by
    split <;>
    · refine List.Pairwise.imp_of_mem (fun _ hj hlt => ⟨hlt, ?_⟩) (pairwise_lt_range' 1)
      rw [mem_range'_1] at hj
      omega
  rw [expandSubnet_eq hlength, pairwise_map]
  refine hrange.imp fun ⟨hlt, hj⟩ => ?_
  rw [UInt32.lt_iff_toNat_lt, toNat_subnetBase_add hlength (by omega),
    toNat_subnetBase_add hlength hj]
  omega

end Range

theorem toDigits_head {value : Nat} (h : 0 < value) : (Nat.toDigits 10 value).head? ≠ some '0' := by
  have hdigit : ∀ digit < 10, 0 < digit → [Nat.digitChar digit].head? ≠ some '0' := by decide
  induction value using Nat.strong_induction_on with
  | _ value ih =>
    by_cases hsmall : value < 10
    · rw [Nat.toDigits_of_lt_base hsmall]
      exact hdigit value hsmall h
    · rw [Nat.toDigits_of_base_le (by decide) (by omega),
        head?_append_of_ne_nil _ Nat.toDigits_ne_nil]
      exact ih _ (by omega) (by omega)

theorem parseOctet_toDigits {octet : Nat} (h : octet < 256) :
    parseOctet (Nat.toDigits 10 octet) = some octet := by
  have hdigits : (Nat.toDigits 10 octet).all Char.isDigit = true :=
    all_eq_true.mpr fun c hc => Nat.isDigit_of_mem_toDigits (by decide) (by decide) hc
  have hshort := Nat.toDigits_length 10 octet 3 (by decide) (by omega)
  have hzero : (Nat.toDigits 10 octet).head? = some '0' → (Nat.toDigits 10 octet).length = 1 := by
    intro hhead
    obtain rfl : octet = 0 := Nat.eq_zero_of_not_pos fun hpos => toDigits_head hpos hhead
    rfl
  rw [parseOctet, if_pos ⟨hdigits, hshort, hzero⟩, fromStrRadix_toDigits h]

def octets (ip : UInt32) : List Nat :=
  ([24, 16, 8, 0] : List UInt32).map fun shift => ((ip >>> shift) &&& 0xFF).toNat

theorem octets_eq (ip : UInt32) : octets ip = [ip.toNat / 2 ^ 24 % 256, ip.toNat / 2 ^ 16 % 256,
    ip.toNat / 2 ^ 8 % 256, ip.toNat % 256] := by
  have hbyte : ∀ n : Nat, n &&& 255 = n % 256 := fun n => Nat.and_two_pow_sub_one_eq_mod n 8
  simp [octets, UInt32.toNat_and, UInt32.toNat_shiftRight, Nat.shiftRight_eq_div_pow, hbyte]

theorem ipv4Text_eq (ip : UInt32) :
    ipv4Text ip = ['.'].intercalate ((octets ip).map (Nat.toDigits 10)) := by
  rw [ipv4Text, octets, map_map]
  rfl

theorem digit_plain {value : Nat} {c : Char} (hc : c ∈ Nat.toDigits 10 value) :
    c ≠ '.' ∧ c ≠ '/' ∧ Lib.isWhiteSpace c = false := by
  have hdigit := digitValue_of_mem_toDigits hc
  refine ⟨?_, ?_, isWhiteSpace_digit (by rw [hdigit]; rfl)⟩
  · rintro rfl
    exact absurd (Nat.isDigit_of_mem_toDigits (by decide) (by decide) hc) (by decide)
  · rintro rfl
    exact absurd (Nat.isDigit_of_mem_toDigits (by decide) (by decide) hc) (by decide)

theorem parseIpv4Addr_ipv4Text (ip : UInt32) : parseIpv4Addr (ipv4Text ip) = some ip := by
  have hsplit : (ipv4Text ip).splitOn '.' = (octets ip).map (Nat.toDigits 10) := by
    rw [ipv4Text_eq]
    refine splitOn_intercalate '.' ?_ (by simp [octets])
    intro part hpart hdot
    obtain ⟨octet, -, rfl⟩ := mem_map.mp hpart
    exact (digit_plain hdot).1 rfl
  have hip := ip.toNat_lt
  rw [parseIpv4Addr, hsplit, octets_eq]
  simp only [map_cons, map_nil, Option.bind_eq_bind,
    parseOctet_toDigits (Nat.mod_lt _ (by decide : 256 > 0)), Option.bind_some]
  rw [show ((ip.toNat / 2 ^ 24 % 256 * 256 + ip.toNat / 2 ^ 16 % 256) * 256 +
    ip.toNat / 2 ^ 8 % 256) * 256 + ip.toNat % 256 = ip.toNat by omega, UInt32.ofNat_toNat]

theorem ipv4Text_plain {ip : UInt32} {c : Char} (hc : c ∈ ipv4Text ip) :
    c ≠ '/' ∧ Lib.isWhiteSpace c = false := by
  rw [ipv4Text_eq, octets_eq] at hc
  simp only [map_cons, map_nil, intercalate, intersperse, flatten_cons,
    flatten_nil, mem_append, mem_singleton, not_mem_nil, or_false] at hc
  have hdot : '.' ≠ '/' ∧ Lib.isWhiteSpace '.' = false := by decide
  rcases hc with hc | rfl | hc | rfl | hc | rfl | hc
  · exact (digit_plain hc).2
  · exact hdot
  · exact (digit_plain hc).2
  · exact hdot
  · exact (digit_plain hc).2
  · exact hdot
  · exact (digit_plain hc).2

theorem subnetTarget_text (ip : UInt32) {length : Nat} (hlength : length < 2 ^ 32) :
    SubnetTarget (ipv4Text ip ++ '/' :: Nat.toDigits 10 length) ip length := by
  have htrim : ∀ text : List Char, (∀ c ∈ text, Lib.isWhiteSpace c = false) → Lib.trim text = text :=
    fun text h => trim_eq_self (fun c hc => h c (mem_of_mem_head? hc))
      fun c hc => h c (mem_of_getLast? hc)
  have hip : ∀ c ∈ ipv4Text ip, Lib.isWhiteSpace c = false := fun _ hc => (ipv4Text_plain hc).2
  have hdigits : ∀ c ∈ Nat.toDigits 10 length, Lib.isWhiteSpace c = false :=
    fun _ hc => (digit_plain hc).2.2
  refine ⟨ipv4Text ip, Nat.toDigits 10 length, ?_, ?_, ?_⟩
  · rw [htrim, splitOnce_eq_some_iff]
    · exact ⟨fun hslash => (ipv4Text_plain hslash).1 rfl, rfl⟩
    · intro c hc
      rcases mem_append.mp hc with hc | hc
      · exact hip c hc
      · rcases mem_cons.mp hc with rfl | hc
        · decide
        · exact hdigits c hc
  · rw [htrim _ hip, parseIpv4Addr_ipv4Text]
  · rw [htrim _ hdigits, fromStrRadix_toDigits hlength]

/-- A target of an accepted length lists, rising, the addresses that agree with the given one on
the first bits, up to a length of 30 without the first and the last of them.  No sum of the count
overflows, and every address of the subnet gives the same list. -/
theorem expandTarget_lists_subnet (ip : UInt32) {length : Nat}
    (hlength : 22 ≤ length ∧ length ≤ 32) :
    SubnetTarget (ipv4Text ip ++ '/' :: Nat.toDigits 10 length) ip length ∧
    (∀ offset < 2 ^ (32 - length), (subnetBase ip length).toNat + offset < 2 ^ 32) ∧
    ∃ addresses : List UInt32, addresses.Pairwise (· < ·) ∧
      (∀ address, address ∈ addresses ↔ InSubnet length ip address ∧
        (length ≤ 30 → (∃ first, InSubnet length ip first ∧ first < address) ∧
          ∃ last, InSubnet length ip last ∧ address < last)) ∧
      ∀ other target, InSubnet length ip other → SubnetTarget target other length →
        expandTarget target = addresses.map ipv4Text := by
  have hbelow := @subnetBase_add_le ip length hlength
  refine ⟨subnetTarget_text ip (by omega), fun offset hoffset => by omega, expandSubnet ip length,
    expandSubnet_rising hlength, fun address => ?_, fun other target hother htarget => ?_⟩
  · rw [mem_expandSubnet hlength, inSubnet_iff_range hlength]
    constructor
    · rintro ⟨i, hi, haddress, hends⟩
      refine ⟨by omega, fun hshort => ⟨⟨subnetBase ip length + UInt32.ofNat 0, ?_⟩,
        subnetBase ip length + UInt32.ofNat (2 ^ (32 - length) - 1), ?_⟩⟩ <;>
      · rw [inSubnet_iff_range hlength, UInt32.lt_iff_toNat_lt,
          toNat_subnetBase_add hlength (by omega)]
        have := hends hshort
        omega
    · rintro ⟨hrange, hends⟩
      refine ⟨address.toNat - (subnetBase ip length).toNat, by omega, by omega, fun hshort => ?_⟩
      obtain ⟨⟨first, hfirst, hlt⟩, last, hlast, hgt⟩ := hends hshort
      rw [inSubnet_iff_range hlength] at hfirst hlast
      rw [UInt32.lt_iff_toNat_lt] at hlt hgt
      omega
  · have hbase : subnetBase other length = subnetBase ip length := by
      rw [← UInt32.toNat_inj, subnetBase_toNat hlength.1, subnetBase_toNat hlength.1,
        (inSubnet_iff_div hlength.2).mp hother]
    rw [expandTarget_eq htarget, expandSubnet_eq hlength, expandSubnet_eq hlength, hbase]

/-- In the highest subnet of four the last address is left out and the one before it is listed. -/
theorem highest_subnet_listed : ∃ addresses : List UInt32, addresses.Pairwise (· < ·) ∧
    0xFFFFFFFE ∈ addresses ∧ 0xFFFFFFFF ∉ addresses ∧
    expandTarget (ipv4Text 0xFFFFFFFD ++ '/' :: Nat.toDigits 10 30) = addresses.map ipv4Text := by
  have hsubnet : ∀ address ∈ ([0xFFFFFFFC, 0xFFFFFFFD, 0xFFFFFFFE, 0xFFFFFFFF] : List UInt32),
      InSubnet 30 0xFFFFFFFD address := by
    unfold InSubnet
    rw [forall_mem_cons, forall_mem_cons, forall_mem_cons, forall_mem_singleton]
    decide
  obtain ⟨htarget, -, addresses, hrising, hmem, hsame⟩ :=
    @expandTarget_lists_subnet 0xFFFFFFFD 30 (by decide)
  refine ⟨addresses, hrising, ?_, ?_, hsame _ _ (hsubnet _ (by decide)) htarget⟩
  · rw [hmem]
    exact ⟨hsubnet _ (by decide), fun _ => ⟨⟨0xFFFFFFFC, hsubnet _ (by decide), by decide⟩,
      0xFFFFFFFF, hsubnet _ (by decide), by decide⟩⟩
  · rw [hmem]
    rintro ⟨-, hends⟩
    obtain ⟨-, last, -, hlast⟩ := hends (by decide)
    exact absurd (UInt32.lt_iff_toNat_lt.mp hlast)
      (Nat.not_lt.mpr (Nat.le_of_lt_succ last.toNat_lt))

end PbsGui.Engine.Discovery
