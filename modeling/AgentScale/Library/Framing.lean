import Mathlib.Tactic.Common

set_option autoImplicit false

/-! # Reading frames from a stream

A reader takes elements from a stream one after another until they make up a frame. `stage` is what it
makes of the elements it has taken so far; `poll` takes all that has arrived, up to the end of a frame.
The reader is `Synced` with the frames still to come when what it has taken, what has arrived and what
is on the way are their encodings; `Synced.poll_ready` and `Synced.poll_pending` say what a poll does
then. -/

namespace Framing

variable {β α ε : Type*}

/-- What a reader makes of what it has taken. -/
inductive Stage (α ε : Type*) where
  | more
  | done (frame : α)
  | bad (error : ε)

/-- The result of polling a reader. -/
inductive Poll (β α ε : Type*) where
  | pending (taken : List β)
  | ready (result : Except ε α) (rest : List β)

/-- Take elements until a frame is complete, they make no frame, or none are left. -/
def poll (stage : List β → Stage α ε) : List β → List β → Poll β α ε
  | taken, [] => .pending taken
  | taken, b :: rest =>
    match stage (taken ++ [b]) with
    | .more => poll stage (taken ++ [b]) rest
    | .done frame => .ready (.ok frame) rest
    | .bad error => .ready (.error error) rest

/-- A frame is recognised at the end of its encoding and not before. -/
structure Recognises (stage : List β → Stage α ε) (encode : α → List β) (frame : α) : Prop where
  nonempty : encode frame ≠ []
  done : stage (encode frame) = .done frame
  more : ∀ p, p <+: encode frame → p ≠ encode frame → stage p = .more

variable {stage : List β → Stage α ε} {encode : α → List β} {frame : α}
  {taken arrived coming rest : List β} {frames : List α}

/-- One more element: the frame is complete, or it is not. -/
theorem Recognises.stage_append (h : Recognises stage encode frame) {b : β}
    (hpart : taken ++ [b] <+: encode frame) :
    stage (taken ++ [b]) = if taken.length + 1 = (encode frame).length then .done frame else .more := by
  by_cases hlen : taken.length + 1 = (encode frame).length
  · have hall : taken ++ [b] = encode frame := hpart.eq_of_length (by simpa using hlen)
    rw [if_pos hlen, hall]
    exact h.done
  · rw [if_neg hlen]
    refine h.more _ hpart (fun hall => hlen ?_)
    rw [← hall, List.length_append]
    rfl

/-- The whole frame has arrived: it is handed over, and nothing after it is taken. -/
theorem Recognises.poll_ready (h : Recognises stage encode frame)
    (heq : taken ++ arrived = encode frame ++ rest) (hlt : taken.length < (encode frame).length) :
    poll stage taken arrived = .ready (.ok frame) rest := by
  induction arrived generalizing taken with
  | nil =>
    have hlen := congrArg List.length heq
    simp only [List.append_nil, List.length_append] at hlen
    omega
  | cons b arrived ih =>
    have heq' : taken ++ [b] ++ arrived = encode frame ++ rest := by simpa using heq
    have hpart : taken ++ [b] <+: encode frame := by
      refine List.prefix_of_prefix_length_le ⟨arrived, heq'⟩ ⟨rest, rfl⟩ ?_
      rw [List.length_append]
      exact hlt
    rw [poll, h.stage_append hpart]
    by_cases hlen : taken.length + 1 = (encode frame).length
    · have hall : taken ++ [b] = encode frame := hpart.eq_of_length (by simpa using hlen)
      rw [if_pos hlen]
      rw [hall] at heq'
      rw [List.append_cancel_left heq']
    · rw [if_neg hlen]
      exact ih heq' (by simp; omega)

/-- Only part of the frame has arrived: all of that is taken. -/
theorem Recognises.poll_pending (h : Recognises stage encode frame)
    (hpart : taken ++ arrived <+: encode frame)
    (hlt : taken.length + arrived.length < (encode frame).length) :
    poll stage taken arrived = .pending (taken ++ arrived) := by
  induction arrived generalizing taken with
  | nil => rw [poll, List.append_nil]
  | cons b arrived ih =>
    have happend : taken ++ b :: arrived = taken ++ [b] ++ arrived := by simp
    rw [happend] at hpart ⊢
    simp only [List.length_cons] at hlt
    rw [poll, h.stage_append ((List.prefix_append _ _).trans hpart), if_neg (by omega)]
    exact ih hpart (by simp; omega)

/-! ## How much a poll takes -/

/-- A reader that is ready has taken something, and nothing after the frame. -/
theorem poll_eq_ready {result : Except ε α} (h : poll stage taken arrived = .ready result rest) :
    ∃ used, used ≠ [] ∧ arrived = used ++ rest ∧
      ∀ frame, result = .ok frame → stage (taken ++ used) = .done frame := by
  induction arrived generalizing taken with
  | nil => cases h
  | cons b arrived ih =>
    rw [poll] at h
    split at h
    · obtain ⟨used, _, harrived, hdone⟩ := ih h
      refine ⟨b :: used, by simp, by simp [harrived], ?_⟩
      simpa using hdone
    · next frame hstage =>
      obtain ⟨hresult, hrest⟩ := Poll.ready.inj h
      refine ⟨[b], by simp, by simp [hrest], ?_⟩
      rintro frame' rfl
      rwa [← Except.ok.inj hresult]
    · obtain ⟨hresult, hrest⟩ := Poll.ready.inj h
      refine ⟨[b], by simp, by simp [hrest], ?_⟩
      rintro frame rfl
      cases hresult

/-- A reader that is not ready has taken everything. -/
theorem poll_eq_pending {left : List β} (h : poll stage taken arrived = .pending left) :
    left = taken ++ arrived := by
  induction arrived generalizing taken with
  | nil => simpa [poll] using h.symm
  | cons b arrived ih =>
    rw [poll] at h
    split at h
    · simpa using ih h
    · cases h
    · cases h

/-! ## Streams of frames -/

/-- What has been taken, what has arrived and what is on the way are the encodings of `frames`, and
    what has been taken is less than the first of them. -/
structure Synced (encode : α → List β) (frames : List α) (taken arrived coming : List β) : Prop where
  stream : taken ++ arrived ++ coming = frames.flatMap encode
  within : ∀ first later, frames = first :: later → taken.length < (encode first).length

/-- At the start of a stream. -/
theorem Synced.start (h : ∀ frame ∈ frames, encode frame ≠ []) :
    Synced encode frames [] [] (frames.flatMap encode) := by
  refine ⟨rfl, ?_⟩
  rintro first later rfl
  exact List.length_pos_iff.2 (h first List.mem_cons_self)

/-- Elements arrive. -/
theorem Synced.arrive (h : Synced encode frames taken arrived coming) (n : Nat) :
    Synced encode frames taken (arrived ++ coming.take n) (coming.drop n) := by
  refine ⟨?_, h.within⟩
  rw [← h.stream]
  simp

/-- With no frame left, nothing is left. -/
theorem Synced.nil_iff (h : Synced encode [] taken arrived coming) :
    taken = [] ∧ arrived = [] ∧ coming = [] := by
  simpa [and_assoc] using h.stream

/-- Further frames are sent. -/
theorem Synced.append (h : Synced encode frames taken arrived coming) {later : List α}
    (hlater : ∀ frame ∈ later, encode frame ≠ []) :
    Synced encode (frames ++ later) taken arrived (coming ++ later.flatMap encode) := by
  refine ⟨by rw [← List.append_assoc, h.stream, List.flatMap_append], ?_⟩
  intro first rest heq
  cases frames with
  | nil =>
    obtain rfl : later = first :: rest := heq
    rw [h.nil_iff.1]
    exact List.length_pos_iff.2 (hlater first List.mem_cons_self)
  | cons f frames =>
    obtain rfl : f = first := (List.cons.inj heq).1
    exact h.within f frames rfl

/-- The first frame has arrived: the reader hands it over and is in sync with the later ones. -/
theorem Synced.poll_ready {first : α} {later : List α}
    (h : Synced encode (first :: later) taken arrived coming)
    (hall : ∀ frame ∈ first :: later, Recognises stage encode frame)
    (hlen : (encode first).length ≤ taken.length + arrived.length) :
    ∃ left, poll stage taken arrived = .ready (.ok first) left ∧
      Synced encode later [] left coming := by
  have hstream := h.stream
  rw [List.flatMap_cons] at hstream
  obtain ⟨left, hleft⟩ : encode first <+: taken ++ arrived := by
    refine List.prefix_of_prefix_length_le ⟨_, hstream.symm⟩ (List.prefix_append _ _) ?_
    simpa using hlen
  rw [← hleft, List.append_assoc] at hstream
  refine ⟨left, ?_, ⟨by simpa using hstream, ?_⟩⟩
  · exact (hall first List.mem_cons_self).poll_ready hleft.symm (h.within first later rfl)
  · rintro next later' rfl
    have hnext := hall next (List.mem_cons_of_mem _ List.mem_cons_self)
    exact List.length_pos_iff.2 hnext.nonempty

/-- The first frame has not arrived: the reader takes all there is and stays in sync. -/
theorem Synced.poll_pending (h : Synced encode frames taken arrived coming)
    (hall : ∀ frame ∈ frames, Recognises stage encode frame)
    (hshort : ∀ first later, frames = first :: later →
      taken.length + arrived.length < (encode first).length) :
    poll stage taken arrived = .pending (taken ++ arrived) ∧
      Synced encode frames (taken ++ arrived) [] coming := by
  refine ⟨?_, ⟨by simpa using h.stream, fun first later hframes => by
    simpa using hshort first later hframes⟩⟩
  cases frames with
  | nil =>
    obtain ⟨rfl, rfl, _⟩ := h.nil_iff
    rfl
  | cons first later =>
    have hlt := hshort first later rfl
    refine (hall first List.mem_cons_self).poll_pending ?_ hlt
    refine List.prefix_of_prefix_length_le ⟨coming, h.stream⟩ ?_ ?_
    · rw [List.flatMap_cons]
      exact List.prefix_append _ _
    · rw [List.length_append]
      exact Nat.le_of_lt hlt

end Framing
