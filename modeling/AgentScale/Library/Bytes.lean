import AgentScale.Library.Checked

set_option autoImplicit false

/-! # Byte strings

The UTF-8 bytes of a string, 16-bit integers with the most significant byte first, and accesses that are
checked at run time: an index or a slice outside of the list ends the computation with `Abort.panic`,
which is not one of its own errors. -/

namespace Bytes

open Checked

/-! ## UTF-8 -/

def utf8 (s : String) : List UInt8 := s.toByteArray.data.toList

/-- The string with the given UTF-8 bytes, if they are well formed. -/
def fromUtf8 (bytes : List UInt8) : Option String := String.fromUTF8? ⟨bytes.toArray⟩

theorem utf8_inj {s t : String} : utf8 s = utf8 t ↔ s = t := by
  constructor
  · intro h
    exact String.toByteArray_inj.1 (ByteArray.ext (Array.toList_inj.1 h))
  · rintro rfl
    rfl

theorem utf8_append (s t : String) : utf8 (s ++ t) = utf8 s ++ utf8 t := by
  simp [utf8]

theorem fromUtf8_eq_some {bytes : List UInt8} {s : String} :
    fromUtf8 bytes = some s ↔ utf8 s = bytes := by
  unfold fromUtf8 String.fromUTF8?
  constructor
  · intro h
    split at h
    · cases h
      simp [utf8, String.fromUTF8]
    · cases h
  · rintro rfl
    have hbytes : (⟨(utf8 s).toArray⟩ : ByteArray) = s.toByteArray := ByteArray.ext (by simp [utf8])
    rw [hbytes, dif_pos s.isValidUTF8]
    rfl

/-! ## 16-bit integers -/

def toBeBytes (n : UInt16) : List UInt8 := [UInt8.ofNat (n.toNat / 256), UInt8.ofNat (n.toNat % 256)]

def fromBeBytes (a b : UInt8) : UInt16 := UInt16.ofNat (256 * a.toNat + b.toNat)

theorem fromBeBytes_toBeBytes (n : UInt16) :
    fromBeBytes (UInt8.ofNat (n.toNat / 256)) (UInt8.ofNat (n.toNat % 256)) = n := by
  have hn := n.toNat_lt
  refine UInt16.toNat.inj ?_
  simp only [fromBeBytes, UInt8.toNat_ofNat', UInt16.toNat_ofNat']
  omega

theorem toBeBytes_fromBeBytes (a b : UInt8) : toBeBytes (fromBeBytes a b) = [a, b] := by
  have ha := a.toNat_lt
  have hb := b.toNat_lt
  have hn : (fromBeBytes a b).toNat = 256 * a.toNat + b.toNat := by
    rw [fromBeBytes, UInt16.toNat_ofNat']
    omega
  rw [toBeBytes, hn, show (256 * a.toNat + b.toNat) / 256 = a.toNat by omega,
    show (256 * a.toNat + b.toNat) % 256 = b.toNat by omega]
  simp

/-! ## Accesses that are checked at run time -/

/-- How a computation ends without a result: by an access out of bounds, or with an error. -/
inductive Abort (ε : Type) where
  | panic
  | error (e : ε)

variable {ε α : Type}

def index (bytes : List α) (i : Nat) : Except (Abort ε) α := okOr bytes[i]? .panic

def slice (bytes : List α) (start stop : Nat) : Except (Abort ε) (List α) := do
  ensure (start ≤ stop ∧ stop ≤ bytes.length) .panic
  return (bytes.take stop).drop start

variable {bytes : List α}

@[simp] theorem index_eq_ok {i : Nat} {a : α} :
    index (ε := ε) bytes i = .ok a ↔ bytes[i]? = some a := okOr_eq_ok

theorem slice_eq_ok {bytes part : List α} {start stop : Nat} :
    slice (ε := ε) bytes start stop = .ok part ↔
      (start ≤ stop ∧ stop ≤ bytes.length) ∧ (bytes.take stop).drop start = part := by
  unfold slice
  rw [bind_eq_ok]
  constructor
  · rintro ⟨_, hbounds, hpart⟩
    exact ⟨ensure_eq_ok.1 hbounds, pure_eq_ok.1 hpart⟩
  · rintro ⟨hbounds, hpart⟩
    exact ⟨(), ensure_of hbounds, pure_eq_ok.2 hpart⟩

/-- The computation makes no access out of bounds. -/
def InBounds (x : Except (Abort ε) α) : Prop := x ≠ .error .panic

theorem inBounds_index {i : Nat} (h : i < bytes.length) :
    InBounds (index (ε := ε) bytes i) := by
  simp [InBounds, index, okOr, h]

theorem inBounds_slice {start stop : Nat} (hle : start ≤ stop) (hlen : stop ≤ bytes.length) :
    InBounds (slice (ε := ε) bytes start stop) := by
  rw [slice_eq_ok.2 ⟨⟨hle, hlen⟩, rfl⟩]
  simp [InBounds]

theorem inBounds_ensure {p : Prop} [Decidable p] {e : ε} : InBounds (ensure p (Abort.error e)) := by
  by_cases hp : p
  · simp [InBounds, ensure, hp]
  · simp [InBounds, ensure, hp]

theorem inBounds_okOr {o : Option α} {e : ε} : InBounds (okOr o (Abort.error e)) := by
  cases o with
  | none => simp [InBounds, okOr]
  | some a => simp [InBounds, okOr]

/-- Accesses in sequence: the later ones may rely on the results of the earlier. -/
theorem InBounds.bind {β : Type} {x : Except (Abort ε) α} {f : α → Except (Abort ε) β}
    (hx : InBounds x) (hf : ∀ a, x = .ok a → InBounds (f a)) : InBounds (x >>= f) := by
  cases x with
  | error e => simpa [InBounds] using hx
  | ok a => exact hf a rfl

end Bytes
