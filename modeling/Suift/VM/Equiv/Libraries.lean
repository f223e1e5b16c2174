import Suift.Lib.AbiLemmas
import Suift.VM.Libraries
import Suift.VM.RuntimeAdapter

/-!
# Lists of bid ids

The precompiles read the ids of merged bids with `bidIdsAbi`, which has one argument of type `bytes16[]`; the
contracts write them with `abi.encode`.
-/

namespace Suift

open Abi Fallible SuaveAbi

theorem toGoType_bidId_eq_ok {output : Bytes} {i : ℕ} {id : BidId}
    (h : toGoType bidId i output = .ok id) :
    id = BitVec.ofNat 128 (Rlp.ofBigEndian ((output.drop i).take 16)) := by
  have h : (do requireWord i output; readFixedBytes 16 (← subslice output i (i + 32))) = .ok id := h
  simp only [readFixedBytes, bind_eq_ok_iff, pure_eq_ok_iff] at h
  obtain ⟨⟨⟩, -, word, hword, b, hb, rfl⟩ := h
  obtain ⟨-, rfl⟩ := subslice_eq_ok_iff.mp hword
  obtain ⟨-, rfl⟩ := subslice_eq_ok_iff.mp hb
  have hfirst : (((output.drop i).take (i + 32 - i)).drop 0).take (16 - 0) = (output.drop i).take 16 := by
    rw [List.drop_zero, List.take_take]
    congr 1
    omega
  exact congrArg (fun b => BitVec.ofNat 128 (Rlp.ofBigEndian b)) hfirst

/-- The loop over the ids. -/
theorem unpackElems_bidId {output : Bytes} {i n : ℕ} {ids : List BidId}
    (h : unpackElems (fun i => toGoType bidId i output) 32 (32 * i) n = .ok ids) :
    ids = (List.range' i n).map fun j => BitVec.ofNat 128 (Rlp.ofBigEndian ((output.drop (32 * j)).take 16)) := by
  induction n generalizing i ids with
  | zero => exact (Except.ok.inj h).symm
  | succ n ih =>
    obtain ⟨id, hid, h⟩ := bind_eq_ok_iff.mp h
    obtain ⟨ids', hids', h⟩ := bind_eq_ok_iff.mp h
    obtain rfl := Except.ok.inj h
    rw [List.range'_succ, List.map_cons, ← toGoType_bidId_eq_ok hid, ← ih (i := i + 1) hids']
    rfl

/-- What the general decoder reads is what `unpackBidIds` reads. -/
theorem unpackBidIds_of_unpack {data : Bytes} {ids : List BidId} (h : bidIdsInputs.unpack data = .ok (ids, ())) :
    unpackBidIds data = .ok ids := by
  have hne : data ≠ [] := by
    rintro rfl
    cases h
  have h := (unpack_of_ne_nil hne).symm.trans h
  obtain ⟨ids', hslice, h⟩ := bind_eq_ok_iff.mp h
  obtain rfl : ids = ids' := (congrArg Prod.fst (Except.ok.inj h)).symm
  obtain ⟨⟨⟩, hword, hslice⟩ := bind_eq_ok_iff.mp hslice
  obtain ⟨⟨start, length⟩, hpoints, hslice⟩ := bind_eq_ok_iff.mp hslice
  obtain ⟨output, houtput, hslice⟩ := bind_eq_ok_iff.mp hslice
  rw [requireWord_eq_ok_iff] at hword
  simp only [lengthPrefixPointsTo, bind_eq_ok_iff, ite_throw_eq_ok_iff, pure_eq_ok_iff, Prod.mk.injEq] at hpoints
  obtain ⟨word, hoffset, hend, hend', word', hlength, htotal, htotal', rfl, rfl⟩ := hpoints
  have hoffset : data.take 32 = word := (subslice_eq_ok_iff.mp hoffset).2
  have hlength : (data.drop (Rlp.ofBigEndian word + 32 - 32)).take 32 = word' := by
    obtain ⟨-, h⟩ := subslice_eq_ok_iff.mp hlength
    rwa [Nat.add_sub_cancel, Nat.add_sub_cancel_left, ← Nat.add_sub_cancel (n := Rlp.ofBigEndian word) (m := 32)] at h
  obtain rfl : data.drop (Rlp.ofBigEndian word + 32) = output :=
    Except.ok.inj ((subslice_drop (by omega)).symm.trans houtput)
  obtain ⟨hroom, hloop⟩ := ite_throw_eq_ok_iff.mp hslice
  have hids := unpackElems_bidId (i := 0) hloop
  rw [← List.range_eq_range'] at hids
  simp only [unpackBidIds, ite_throw_eq_ok_iff, pure_eq_ok_iff, hoffset, hlength]
  exact ⟨by omega, by omega, hend, hend', htotal, htotal', hroom, hids.symm⟩

theorem unpackBidIds_encodeBidIds {ids : List BidId} (h : (encodeBidIds ids).length < 2 ^ 63) :
    unpackBidIds (encodeBidIds ids) = .ok ids :=
  unpackBidIds_of_unpack (unpack_pack _ h)

end Suift
