import Konomi.Lib.Bytes
import Konomi.Storage

/-!
# The addresses of the swap pools

`ExchangeAddress` of `pallets/swap/src/lib.rs` hashes a prefix and the little-endian bytes of the two asset ids, and takes
the hash as an account id. The hash is a parameter. `readSeed` parses the bytes that are hashed: it accepts exactly what
`exchangeSeed` writes, and returns the pair (`readSeed_iff`). So two pairs of assets have the same pool account only if
the hash collides on well-formed bytes (`exchange_accounts_distinct_iff`).
-/

namespace Konomi.Swap
open Bytes

variable {A : Type} {i i' j j' : AssetId} {l : List Byte}

/-- `b"substrate-uniswap:"` -/
def seedPrefix : List Byte := "substrate-uniswap:".toList.map fun c => BitVec.ofNat 8 c.toNat

/-- The eight bytes of `x.to_le()`. -/
def u64ToBytes (x : BitVec 64) : List Byte := toBytes 8 x

/-- What `make_exchange_address` hashes. -/
def exchangeSeed (inherentAssetId assetId : AssetId) : List Byte :=
  seedPrefix ++ u64ToBytes inherentAssetId ++ u64ToBytes assetId

/-- `T::Hashing::hash(&buf[..]).unchecked_into()` -/
def makeExchangeAddress (hash : List Byte → A) (inherentAssetId assetId : AssetId) : A :=
  hash (exchangeSeed inherentAssetId assetId)

/-! ## Reading a seed -/

/-- The pair of a well-formed seed: the prefix and sixteen bytes. -/
def readSeed (l : List Byte) : Option (AssetId × AssetId) :=
  if l.take 18 = seedPrefix ∧ l.length = 34 then
    some (ofBytes 64 ((l.drop 18).take 8), ofBytes 64 (l.drop 26))
  else none

theorem length_seedPrefix : seedPrefix.length = 18 := by decide

theorem exchangeSeed_parts (i j : AssetId) : (exchangeSeed i j).take 18 = seedPrefix ∧
    ((exchangeSeed i j).drop 18).take 8 = u64ToBytes i ∧ (exchangeSeed i j).drop 26 = u64ToBytes j ∧
    (exchangeSeed i j).length = 34 := by
  have hi : (u64ToBytes i).length = 8 := length_toBytes 8 i
  have hj : (u64ToBytes j).length = 8 := length_toBytes 8 j
  have hstart := length_seedPrefix
  unfold exchangeSeed
  refine ⟨?_, ?_, ?_, ?_⟩
  · rw [List.append_assoc, List.take_left' hstart]
  · rw [List.append_assoc, List.drop_left' hstart, List.take_left' hi]
  · rw [List.drop_left' (by rw [List.length_append, hstart, hi])]
  · rw [List.length_append, List.length_append, hstart, hi, hj]

/-- **A seed is well formed exactly if it is what is written for the pair that is read from it.** -/
theorem readSeed_iff : readSeed l = some (i, j) ↔ l = exchangeSeed i j := by
  unfold readSeed
  constructor
  · intro h
    split at h
    · rename_i hform
      obtain ⟨hstart, hlength⟩ := hform
      cases h
      have hfirst : u64ToBytes (ofBytes 64 ((l.drop 18).take 8)) = (l.drop 18).take 8 :=
        toBytes_ofBytes (by rw [List.length_take, List.length_drop]; omega)
      have hsecond : u64ToBytes (ofBytes 64 (l.drop 26)) = l.drop 26 :=
        toBytes_ofBytes (by rw [List.length_drop]; omega)
      rw [exchangeSeed, hfirst, hsecond, ← hstart, List.append_assoc, show (26 : Nat) = 18 + 8 from rfl,
        ← List.drop_drop, List.take_append_drop, List.take_append_drop]
    · cases h
  · rintro rfl
    obtain ⟨hstart, hfirst, hsecond, hlength⟩ := exchangeSeed_parts i j
    rw [if_pos ⟨hstart, hlength⟩, hfirst, hsecond, u64ToBytes, u64ToBytes, ofBytes_toBytes _ (by omega),
      ofBytes_toBytes _ (by omega)]

theorem exchangeSeed_injective : Function.Injective2 exchangeSeed := by
  intro i i' j j' h
  have hread : readSeed (exchangeSeed i j) = some (i', j') := readSeed_iff.mpr h
  rw [readSeed_iff.mpr rfl] at hread
  cases hread
  exact ⟨rfl, rfl⟩

/-- **Every pair of assets has a pool account of its own exactly if the hash has no collision on well-formed seeds.** -/
theorem exchange_accounts_distinct_iff (hash : List Byte → A) :
    Function.Injective2 (makeExchangeAddress hash) ↔ Set.InjOn hash {l | (readSeed l).isSome} := by
  constructor
  · intro h l hl l' hl' heq
    obtain ⟨⟨i, j⟩, hl⟩ := Option.isSome_iff_exists.mp hl
    obtain ⟨⟨i', j'⟩, hl'⟩ := Option.isSome_iff_exists.mp hl'
    rw [readSeed_iff] at hl hl'
    subst hl hl'
    obtain ⟨rfl, rfl⟩ := h heq
    rfl
  · intro h i i' j j' heq
    have hwell : ∀ i j, exchangeSeed i j ∈ {l | (readSeed l).isSome} := fun i j => by
      show (readSeed (exchangeSeed i j)).isSome
      rw [readSeed_iff.mpr rfl]
      rfl
    exact exchangeSeed_injective (h (hwell i j) (hwell i' j') heq)

/-- The bytes of the pool of the assets `0` and `258`. -/
example : (exchangeSeed 0 258).drop 18 = [0, 0, 0, 0, 0, 0, 0, 0, 2, 1, 0, 0, 0, 0, 0, 0] := by decide

end Konomi.Swap
