-- Cutting a stream into frames. A deframer looks at the unread symbols and says
-- that it must wait, that a frame stands in front, or that the stream is bad. A
-- decision on some symbols stands when more of them follow, so the way in which
-- the stream arrives in chunks cannot be seen in what it gives.
import Mathlib.Data.List.Basic

namespace deframe

/-- What a look at the unread symbols decides. -/
inductive Look (φ ε : Type*)
  | wait
  | frame (f : φ) (len : Nat)
  | bad (e : ε)

/-- A deframer. More symbols never change a decision that it has taken. -/
structure Deframer (β φ ε : Type*) where
  look : List β → Look φ ε
  nil_waits : look [] = .wait
  frame_fits : ∀ {s f n}, look s = .frame f n → 0 < n ∧ n ≤ s.length
  frame_stands : ∀ {s f n}, look s = .frame f n → ∀ t, look (s ++ t) = .frame f n
  bad_stands : ∀ {s e}, look s = .bad e → ∀ t, look (s ++ t) = .bad e

/-- What a deframer gives: the frames in order, the unread rest, and the error, if any. -/
structure Out (β φ ε : Type*) where
  frames : List φ
  rest : List β
  error : Option ε

variable {β φ ε : Type*}

/-- The frames that stand in `s`, one after the other, until the deframer must wait or
finds the stream bad. -/
def Deframer.drain (d : Deframer β φ ε) (s : List β) : Out β φ ε :=
  match _h : d.look s with
  | .wait => ⟨[], s, none⟩
  | .bad e => ⟨[], s, some e⟩
  | .frame f n =>
    let out := d.drain (s.drop n)
    ⟨f :: out.frames, out.rest, out.error⟩
termination_by s.length
decreasing_by
  have := d.frame_fits _h
  simp only [List.length_drop]
  omega

variable (d : Deframer β φ ε)

theorem Deframer.drain_wait {s : List β} (h : d.look s = .wait) :
    d.drain s = ⟨[], s, none⟩ := by
  rw [Deframer.drain]
  split <;> simp_all

theorem Deframer.drain_bad {s : List β} {e : ε} (h : d.look s = .bad e) :
    d.drain s = ⟨[], s, some e⟩ := by
  rw [Deframer.drain]
  split <;> simp_all

theorem Deframer.drain_frame {s : List β} {f : φ} {n : Nat} (h : d.look s = .frame f n) :
    d.drain s = ⟨f :: (d.drain (s.drop n)).frames, (d.drain (s.drop n)).rest,
      (d.drain (s.drop n)).error⟩ := by
  rw [Deframer.drain]
  split <;> simp_all

/-- Symbols that come later are read after the frames of the symbols before them. -/
theorem Deframer.drain_append (s t : List β) :
    d.drain (s ++ t) = ⟨(d.drain s).frames ++ (d.drain ((d.drain s).rest ++ t)).frames,
      (d.drain ((d.drain s).rest ++ t)).rest, (d.drain ((d.drain s).rest ++ t)).error⟩ := by
  induction s using Deframer.drain.induct d with
  | case1 s h => simp [d.drain_wait h]
  | case2 s e h => simp [d.drain_bad h, d.drain_bad (d.bad_stands h t)]
  | case3 s f n h ih =>
    have hn := d.frame_fits h
    rw [d.drain_frame h, d.drain_frame (d.frame_stands h t),
      List.drop_append_of_le_length hn.2, ih]
    simp

/-- The rest of a drained stream is decided: to wait, or that it is bad. -/
theorem Deframer.look_rest (s : List β) :
    d.look (d.drain s).rest = match (d.drain s).error with
      | none => .wait
      | some e => .bad e := by
  induction s using Deframer.drain.induct d with
  | case1 s h => simp [d.drain_wait h, h]
  | case2 s e h => simp [d.drain_bad h, h]
  | case3 s f n h ih => simpa [d.drain_frame h] using ih

/-- Once the stream is bad, it stays bad, and it gives no further frame. -/
theorem Deframer.drain_after_error {s : List β} {e : ε} (h : (d.drain s).error = some e)
    (t : List β) : d.drain ((d.drain s).rest ++ t) = ⟨[], (d.drain s).rest ++ t, some e⟩ := by
  have hl := d.look_rest s
  rw [h] at hl
  exact d.drain_bad (d.bad_stands hl t)

/-- The stream read chunk by chunk after the unread symbols `r`: each chunk is put behind
what is unread, and then drained. -/
def Deframer.feed (d : Deframer β φ ε) : List β → List (List β) → Out β φ ε
  | r, [] => ⟨[], r, none⟩
  | r, c :: cs =>
    let out := d.drain (r ++ c)
    let later := d.feed out.rest cs
    ⟨out.frames ++ later.frames, later.rest, out.error.or later.error⟩

/-- A bad stream takes any further chunks without a frame. -/
theorem Deframer.feed_bad {r : List β} {e : ε} (h : d.look r = .bad e) (cs : List (List β)) :
    (d.feed r cs).frames = [] ∧ (d.feed r cs).rest = r ++ cs.flatten := by
  induction cs generalizing r with
  | nil => simp [Deframer.feed]
  | cons c cs ih =>
    have hc := d.bad_stands h c
    obtain ⟨h1, h2⟩ := ih hc
    simp [Deframer.feed, d.drain_bad hc, h1, h2]

/-- Chunk by chunk or all at once: the frames, the rest and the error are the same. -/
theorem Deframer.feed_eq_drain {r : List β} (h : d.look r = .wait) (cs : List (List β)) :
    d.feed r cs = d.drain (r ++ cs.flatten) := by
  induction cs generalizing r with
  | nil => simp [Deframer.feed, d.drain_wait h]
  | cons c cs ih =>
    have hl := d.look_rest (r ++ c)
    rw [List.flatten_cons, ← List.append_assoc, d.drain_append (r ++ c)]
    cases he : (d.drain (r ++ c)).error with
    | none =>
      rw [he] at hl
      simp [Deframer.feed, ih hl, he]
    | some e =>
      rw [he] at hl
      obtain ⟨h1, h2⟩ := d.feed_bad hl cs
      simp [Deframer.feed, d.drain_after_error he, h1, h2, he]

/-- A code of the frames that the deframer reads back: it puts a frame in front of any
symbols, and each frame it finds stands in its code. -/
structure Deframer.Code (encode : φ → List β) (fits : φ → Prop) : Prop where
  look_encode : ∀ f, fits f → ∀ t, d.look (encode f ++ t) = .frame f (encode f).length
  encode_look : ∀ {s f n}, d.look s = .frame f n → fits f ∧ s.take n = encode f

variable {d} {encode : φ → List β} {fits : φ → Prop}

/-- The stream is the code of the frames found in it, followed by the rest. -/
theorem Deframer.Code.drain_eq (hc : d.Code encode fits) (s : List β) :
    (∀ f ∈ (d.drain s).frames, fits f) ∧
      s = ((d.drain s).frames.map encode).flatten ++ (d.drain s).rest := by
  induction s using Deframer.drain.induct d with
  | case1 s h => simp [d.drain_wait h]
  | case2 s e h => simp [d.drain_bad h]
  | case3 s f n h ih =>
    obtain ⟨hf, htake⟩ := hc.encode_look h
    rw [d.drain_frame h]
    refine ⟨?_, ?_⟩
    · intro g hg
      rcases List.mem_cons.mp hg with rfl | hg
      · exact hf
      · exact ih.1 g hg
    · simp only [List.map_cons, List.flatten_cons, List.append_assoc]
      rw [← ih.2, ← htake, List.take_append_drop]

/-- What a deframer finds in the code of some frames and then other symbols. -/
theorem Deframer.Code.drain_encode (hc : d.Code encode fits) (fs : List φ)
    (hfs : ∀ f ∈ fs, fits f) (t : List β) :
    d.drain ((fs.map encode).flatten ++ t) =
      ⟨fs ++ (d.drain t).frames, (d.drain t).rest, (d.drain t).error⟩ := by
  induction fs with
  | nil => simp
  | cons f fs ih =>
    have hlook := hc.look_encode f (hfs f (by simp)) ((fs.map encode).flatten ++ t)
    simp only [List.map_cons, List.flatten_cons, List.append_assoc]
    rw [d.drain_frame hlook, List.drop_left, ih fun g hg => hfs g (by simp [hg])]
    simp

/-- A part of the code of some frames gives the first of them, no error, and a rest that
the symbols still to come complete to the code of the others. -/
theorem Deframer.Code.drain_part (hc : d.Code encode fits) (fs : List φ)
    (hfs : ∀ f ∈ fs, fits f) {s t : List β} (h : s ++ t = (fs.map encode).flatten) :
    (d.drain s).error = none ∧ ∃ later, fs = (d.drain s).frames ++ later ∧
      (d.drain s).rest ++ t = (later.map encode).flatten := by
  have hall := hc.drain_encode fs hfs []
  rw [List.append_nil, ← h, d.drain_append, d.drain_wait d.nil_waits] at hall
  simp only [Out.mk.injEq, List.append_nil] at hall
  obtain ⟨hframes, hrest, herror⟩ := hall
  refine ⟨?_, (d.drain ((d.drain s).rest ++ t)).frames, hframes.symm, ?_⟩
  · cases he : (d.drain s).error with
    | none => rfl
    | some e => rw [d.drain_after_error he t] at herror; simp at herror
  · have hcode := (hc.drain_eq ((d.drain s).rest ++ t)).2
    rwa [hrest, List.append_nil] at hcode

/-! ## A reader on its way -/

/-- A reader has taken `n` symbols of the stream, has found the frames `fs` in them, and has
not yet read `rest`. -/
structure Cut (encode : φ → List β) (fits : φ → Prop) (stream : List β) (n : Nat) (fs : List φ)
    (rest : List β) : Prop where
  fit : ∀ f ∈ fs, fits f
  within : n ≤ stream.length
  taken : stream.take n = (fs.map encode).flatten ++ rest

variable {stream stream' rest : List β} {n : Nat} {fs : List φ}

theorem Cut.start (stream : List β) : Cut encode fits stream 0 [] [] :=
  ⟨by simp, Nat.zero_le _, by simp⟩

/-- The stream may grow behind the reader. -/
theorem Cut.grow (h : Cut encode fits stream n fs rest) (hg : stream <+: stream') :
    Cut encode fits stream' n fs rest := by
  obtain ⟨t, rfl⟩ := hg
  obtain ⟨hfit, hn, htaken⟩ := h
  refine ⟨hfit, ?_, ?_⟩
  · rw [List.length_append]
    omega
  · rw [List.take_append_of_le_length hn, htaken]

/-- The reader takes the next symbols. -/
theorem Cut.read {c : List β} (h : Cut encode fits stream n fs rest) (hc : c <+: stream.drop n) :
    Cut encode fits stream (n + c.length) fs (rest ++ c) := by
  obtain ⟨hfit, hn, htaken⟩ := h
  have hle := hc.length_le
  rw [List.length_drop] at hle
  refine ⟨hfit, by omega, ?_⟩
  rw [List.take_add, htaken, List.append_assoc, ← List.prefix_iff_eq_take.mp hc]

/-- The reader finds a frame in what it has not yet read. -/
theorem Cut.frame (hc : d.Code encode fits) (h : Cut encode fits stream n fs rest) {f : φ} {k : Nat}
    (hf : d.look rest = .frame f k) : Cut encode fits stream n (fs ++ [f]) (rest.drop k) := by
  obtain ⟨hfit, hn, htaken⟩ := h
  obtain ⟨hnew, htake⟩ := hc.encode_look hf
  refine ⟨?_, hn, ?_⟩
  · intro g hg
    rcases List.mem_append.mp hg with hg | hg
    · exact hfit g hg
    · rw [List.mem_singleton.mp hg]
      exact hnew
  · rw [htaken, List.map_append, List.flatten_append, List.append_assoc]
    simp [← htake]

/-- In the code of some frames, a reader finds the first of them. -/
theorem Cut.front (hc : d.Code encode fits) (h : Cut encode fits stream n fs rest) {all : List φ}
    (hall : ∀ f ∈ all, fits f) (hs : stream = (all.map encode).flatten) : fs <+: all := by
  have hpart : stream.take n ++ stream.drop n = (all.map encode).flatten := by
    rw [List.take_append_drop, hs]
  obtain ⟨-, later, hlater, -⟩ := hc.drain_part all hall hpart
  rw [h.taken, hc.drain_encode fs h.fit] at hlater
  rw [hlater, List.append_assoc]
  exact List.prefix_append _ _

/-- In the code of some frames, a reader never finds the stream bad. -/
theorem Cut.not_bad (hc : d.Code encode fits) (h : Cut encode fits stream n fs rest) {all : List φ}
    (hall : ∀ f ∈ all, fits f) (hs : stream = (all.map encode).flatten) (e : ε) :
    d.look rest ≠ .bad e := by
  intro hbad
  have hpart : stream.take n ++ stream.drop n = (all.map encode).flatten := by
    rw [List.take_append_drop, hs]
  have herror := (hc.drain_part all hall hpart).1
  rw [h.taken, hc.drain_encode fs h.fit, d.drain_bad hbad] at herror
  cases herror

/-- A reader that has taken the whole code of some frames, and then must wait, has found them
all. -/
theorem Cut.all_found (hc : d.Code encode fits) (h : Cut encode fits stream n fs rest)
    (hend : stream.length ≤ n) (hwait : d.look rest = .wait) {all : List φ}
    (hall : ∀ f ∈ all, fits f) (hs : stream = (all.map encode).flatten) : fs = all := by
  have htaken := h.taken
  rw [List.take_of_length_le hend, hs] at htaken
  have hfound := hc.drain_encode fs h.fit rest
  have hcode := hc.drain_encode all hall []
  rw [List.append_nil, htaken, hfound, d.drain_wait hwait, d.drain_wait d.nil_waits] at hcode
  simpa using congrArg Out.frames hcode

end deframe
