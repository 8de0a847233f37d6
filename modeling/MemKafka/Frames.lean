import MemKafka.Lib.Bytes
import MemKafka.Lib.Prefix
import MemKafka.Lib.Reader

/-!
# Frames on the wire (`kafka/frame.rs`)

A frame is the length of a body in four bytes, and the body. `read_frame` gets its bytes in pieces of any size: what it
returns and where it stops depends on the bytes alone (`readFrame_eq`). So reading what was written returns the bodies,
and what is cut off inside a frame ends in an error (`frames_round_trip`). Reads and writes that fail are left out.
-/

namespace MemKafka
open Kit

def maxFrameSize : Nat := 100 * 1024 * 1024

inductive IoErrorKind where
  | unexpectedEof
deriving DecidableEq, Repr

inductive FrameError where
  | io (kind : IoErrorKind)
  | invalidLength (length : Int)
  | tooLarge (length : Nat)
deriving DecidableEq, Repr

def decodeFrameLength (length : Int) : Except FrameError Nat :=
  if length < 0 then .error (.invalidLength length) else
  if length.toNat > maxFrameSize then .error (.tooLarge length.toNat) else
  .ok length.toNat

/-- The loop over the reads of the four bytes, with those that are there; `none` at the end of the stream. -/
def readPrefix (got : Bytes) (reader : Reader UInt8) : Except FrameError (Option Bytes) × Reader UInt8 :=
  if got.length < 4 then
    let (bytes, reader) := reader.read (4 - got.length)
    if _hread : bytes = [] then (if got = [] then .ok none else .error (.io .unexpectedEof), reader)
    else readPrefix (got ++ bytes) reader
  else (.ok (some got), reader)
termination_by 4 - got.length
decreasing_by
  have := List.length_pos_iff.2 _hread
  rw [List.length_append]
  omega

def readFrame (reader : Reader UInt8) : Except FrameError (Option Bytes) × Reader UInt8 :=
  match readPrefix [] reader with
  | (.error error, reader) => (.error error, reader)
  | (.ok none, reader) => (.ok none, reader)
  | (.ok (some head), reader) =>
    match decodeFrameLength (beInt head) with
    | .error error => (.error error, reader)
    | .ok length =>
      match reader.readExact length with
      | (none, reader) => (.error (.io .unexpectedEof), reader)
      | (some body, reader) => (.ok (some body), reader)

/-- `write_frame`, with what was written before. The length of a body that is written fits its four bytes. -/
def writeFrame (written body : Bytes) : Except FrameError Bytes :=
  if body.length > maxFrameSize then .error (.tooLarge body.length) else
  .ok (written ++ beOfInt 4 body.length ++ body)

/-- What `n` calls of `read_frame` return. -/
def readFrames : (n : Nat) → Reader UInt8 → List (Except FrameError (Option Bytes))
  | 0, _ => []
  | n + 1, reader => (readFrame reader).1 :: readFrames n (readFrame reader).2

/-! ### The bytes alone -/

/-- What is read of the first bytes of a stream, and the bytes after that. -/
def frameOf (bytes : Bytes) : Except FrameError (Option Bytes) × Bytes :=
  if bytes = [] then (.ok none, []) else
  if bytes.length < 4 then (.error (.io .unexpectedEof), []) else
  match decodeFrameLength (beInt (bytes.take 4)) with
  | .error error => (.error error, bytes.drop 4)
  | .ok length =>
    (if length ≤ (bytes.drop 4).length then .ok (some ((bytes.drop 4).take length)) else .error (.io .unexpectedEof),
      (bytes.drop 4).drop length)

theorem readPrefix_eq (got : Bytes) (reader : Reader UInt8) (hgot : got.length ≤ 4) :
    (readPrefix got reader).1 =
      (if got.length + reader.rest.length < 4 then
        if got ++ reader.rest = [] then .ok none else .error (.io .unexpectedEof)
      else .ok (some (got ++ reader.rest.take (4 - got.length)))) ∧
    (readPrefix got reader).2.rest = reader.rest.drop (4 - got.length) := by
  fun_induction readPrefix got reader with
  | case1 got reader hshort reader' hread =>
    have happend := Reader.read_append reader (4 - got.length)
    have hend : reader.rest = [] := Reader.read_eq_nil (congrArg Prod.fst hread) (by omega)
    simp only [hread, hend, List.nil_append] at happend
    simp [hend, happend, hshort]
  | case2 got reader hshort bytes reader' hread hne ih =>
    have happend := Reader.read_append reader (4 - got.length)
    have hle := Reader.length_read_le reader (4 - got.length)
    simp only [hread] at happend hle
    obtain ⟨hout, hleft⟩ := ih (by rw [List.length_append]; omega)
    rw [hout, hleft, ← happend]
    simp only [List.length_append, List.append_assoc, List.drop_append, List.take_append, List.take_of_length_le hle,
      List.drop_of_length_le hle, List.nil_append, Nat.sub_sub, Nat.add_assoc, and_self]
  | case3 got reader hlong =>
    obtain hfull : got.length = 4 := by omega
    simp [hfull]

theorem readFrame_eq (reader : Reader UInt8) :
    (readFrame reader).1 = (frameOf reader.rest).1 ∧ (readFrame reader).2.rest = (frameOf reader.rest).2 := by
  obtain ⟨hhead, hleft⟩ := readPrefix_eq [] reader (by simp)
  simp only [List.length_nil, Nat.zero_add, List.nil_append, Nat.sub_zero] at hhead hleft
  unfold readFrame frameOf
  match hread : readPrefix [] reader with
  | (out, reader') =>
    simp only [hread] at hhead hleft
    by_cases hend : reader.rest = []
    · simp only [hend, List.length_nil, Nat.zero_lt_succ, if_true] at hhead
      simp [hhead, hend, hleft]
    by_cases hshort : reader.rest.length < 4
    · rw [if_pos hshort, if_neg hend] at hhead
      simp [hhead, hend, hshort, hleft, List.drop_of_length_le hshort.le]
    rw [if_neg hshort] at hhead
    simp only [hhead, if_neg hend, if_neg hshort]
    match decodeFrameLength (beInt (reader.rest.take 4)) with
    | .error error => exact ⟨rfl, hleft⟩
    | .ok length =>
      obtain ⟨hbody, hrest⟩ := Reader.readExact_spec reader' length
      rw [hleft] at hbody hrest
      match hexact : reader'.readExact length with
      | (out, reader'') =>
        simp only [hexact] at hbody hrest
        by_cases henough : length ≤ (reader.rest.drop 4).length
        · rw [if_pos henough] at hbody
          simp only [hexact, hbody, if_pos henough, true_and]
          exact hrest
        · rw [if_neg henough] at hbody
          simp only [hexact, hbody, if_neg henough, true_and]
          exact hrest

/-! ### What was written -/

/-- The bytes of a frame. -/
def frameBytes (body : Bytes) : Bytes := beOfInt 4 body.length ++ body

def frameSize (body : Bytes) : Nat := 4 + body.length

@[simp] theorem length_frameBytes (body : Bytes) : (frameBytes body).length = frameSize body := by
  simp [frameBytes, frameSize]

theorem writeFrame_ok {written body : Bytes} (h : body.length ≤ maxFrameSize) :
    writeFrame written body = .ok (written ++ frameBytes body) := by
  rw [writeFrame, if_neg (not_lt.2 h), frameBytes, List.append_assoc]

theorem writeFrames_ok {written : Bytes} {bodies : List Bytes} (h : ∀ body ∈ bodies, body.length ≤ maxFrameSize) :
    bodies.foldlM writeFrame written = .ok (written ++ bodies.flatMap frameBytes) := by
  induction bodies generalizing written with
  | nil => simp [pure, Except.pure]
  | cons body bodies ih =>
    rw [List.forall_mem_cons] at h
    rw [List.foldlM_cons, writeFrame_ok h.1]
    show bodies.foldlM writeFrame (written ++ frameBytes body) = _
    rw [ih h.2, List.flatMap_cons, List.append_assoc]

/-- What the bytes of a frame's length say. -/
theorem decodeFrameLength_frame {body : Bytes} (h : body.length ≤ maxFrameSize) :
    decodeFrameLength (beInt (beOfInt 4 body.length)) = .ok body.length := by
  have hmax : maxFrameSize = 104857600 := rfl
  rw [beInt_beOfInt (by omega) (by omega), decodeFrameLength, if_neg (by omega), Int.toNat_natCast, if_neg (not_lt.2 h)]

theorem frameOf_nil : frameOf [] = (.ok none, []) := rfl

/-- What is read once the length of a frame is there. -/
theorem frameOf_length {body : Bytes} (h : body.length ≤ maxFrameSize) (bytes : Bytes) :
    frameOf (beOfInt 4 body.length ++ bytes) =
      (if body.length ≤ bytes.length then .ok (some (bytes.take body.length)) else .error (.io .unexpectedEof),
        bytes.drop body.length) := by
  have hne : beOfInt 4 body.length ++ bytes ≠ [] := by
    rw [← List.length_pos_iff, List.length_append, length_beOfInt]
    omega
  have hlong : ¬ (beOfInt 4 body.length ++ bytes).length < 4 := by
    rw [List.length_append, length_beOfInt]
    omega
  rw [frameOf, if_neg hne, if_neg hlong, List.take_left' (length_beOfInt ..), List.drop_left' (length_beOfInt ..),
    decodeFrameLength_frame h]

theorem frameOf_frame {body : Bytes} (h : body.length ≤ maxFrameSize) (rest : Bytes) :
    frameOf (frameBytes body ++ rest) = (.ok (some body), rest) := by
  rw [frameBytes, List.append_assoc, frameOf_length h, if_pos (by simp), List.take_left, List.drop_left]

/-- A frame that is cut off is an error, in its length or in its body. -/
theorem frameOf_cut {body : Bytes} (h : body.length ≤ maxFrameSize) {n : Nat} (hpos : 0 < n) (hlt : n < frameSize body) :
    (frameOf ((frameBytes body).take n)).1 = .error (.io .unexpectedEof) := by
  rw [frameSize] at hlt
  by_cases hhead : n < 4
  · have hlength : ((frameBytes body).take n).length = n := by
      rw [List.length_take, length_frameBytes, frameSize]
      omega
    rw [frameOf, if_neg (List.length_pos_iff.1 (by omega)), if_pos (by omega)]
  · rw [frameBytes, List.take_append, length_beOfInt, List.take_of_length_le (by rw [length_beOfInt]; omega),
      frameOf_length h, if_neg (by rw [List.length_take]; omega)]

/-! ### Reading frame by frame -/

/-- The frames before the end of the stream are read, and then what is left of it. -/
theorem readFrames_append {bodies : List Bytes} (h : ∀ body ∈ bodies, body.length ≤ maxFrameSize) {tail : Bytes}
    (n : Nat) {reader : Reader UInt8} (hreader : reader.rest = bodies.flatMap frameBytes ++ tail) :
    ∃ reader' : Reader UInt8, reader'.rest = tail ∧
      readFrames (bodies.length + n) reader = bodies.map (fun body => .ok (some body)) ++ readFrames n reader' := by
  induction bodies generalizing reader with
  | nil => exact ⟨reader, hreader, by simp⟩
  | cons body bodies ih =>
    rw [List.forall_mem_cons] at h
    obtain ⟨hout, hleft⟩ := readFrame_eq reader
    rw [hreader, List.flatMap_cons, List.append_assoc, frameOf_frame h.1] at hout hleft
    obtain ⟨reader', hrest, hframes⟩ := ih h.2 hleft
    exact ⟨reader', hrest, by rw [List.length_cons, Nat.add_right_comm, readFrames, hout, hframes]; rfl⟩

theorem readFrames_end (n : Nat) {reader : Reader UInt8} (h : reader.rest = []) :
    readFrames n reader = List.replicate n (.ok none) := by
  induction n generalizing reader with
  | zero => rfl
  | succ n ih =>
    obtain ⟨hout, hleft⟩ := readFrame_eq reader
    rw [h, frameOf_nil] at hout hleft
    rw [readFrames, hout, ih hleft, List.replicate_succ]

/-- What is left of a stream that is cut off behind its complete frames: nothing, or the beginning of the next one. -/
theorem take_frames {bodies complete : List Bytes} {n : Nat} (h : LongestFit frameSize n bodies complete) :
    ∃ tail, (bodies.flatMap frameBytes).take n = complete.flatMap frameBytes ++ tail ∧
      (tail = [] ∨ ∃ body ∈ bodies, ∃ k, 0 < k ∧ k < frameSize body ∧ tail = (frameBytes body).take k) ∧
      (n ≤ (bodies.map frameSize).sum → tail.length = n - (complete.map frameSize).sum) := by
  obtain ⟨after, rfl⟩ := h.isPrefix
  have hlength : ∀ {bodies : List Bytes}, (bodies.flatMap frameBytes).length = (bodies.map frameSize).sum := by
    simp [List.length_flatMap]
  have hfits := h.fits
  refine ⟨(after.flatMap frameBytes).take (n - (complete.map frameSize).sum), ?_, ?_, fun hn => ?_⟩
  · rw [List.flatMap_append, List.take_append, hlength, List.take_of_length_le (by rw [hlength]; exact hfits)]
  · cases after with
    | nil => exact .inl (by simp)
    | cons body after =>
      by_cases hnone : n - (complete.map frameSize).sum = 0
      · exact .inl (by rw [hnone, List.take_zero])
      -- one more frame would be too long
      have hshort : n - (complete.map frameSize).sum < frameSize body := by
        by_contra hle
        have hmore := (h.longest (complete ++ [body]) ⟨after, by simp⟩ (by simp; omega)).length_le
        rw [List.length_append, List.length_singleton] at hmore
        omega
      refine .inr ⟨body, by simp, _, Nat.pos_of_ne_zero hnone, hshort, ?_⟩
      rw [List.flatMap_cons, List.take_append_of_le_length (by rw [length_frameBytes]; exact hshort.le)]
  · rw [List.map_append, List.sum_append] at hn
    rw [List.length_take, hlength]
    omega

/-- Frames survive the wire. What is written is read again, in whatever pieces it arrives, and then nothing. Of a stream
that is cut off all frames are read that are complete, and then there is an error, unless the cut is between two frames.
A length that is negative or too large is an error, and nothing behind it is read. -/
theorem frames_round_trip (bodies : List Bytes) (hsize : ∀ body ∈ bodies, body.length ≤ maxFrameSize) :
    ∃ stream, bodies.foldlM writeFrame [] = .ok stream ∧
    (∀ (reader : Reader UInt8) n, reader.rest = stream → readFrames (bodies.length + n) reader =
      bodies.map (fun body => .ok (some body)) ++ List.replicate n (.ok none)) ∧
    (∀ (reader : Reader UInt8) n, n ≤ stream.length → reader.rest = stream.take n →
      ∃ complete, LongestFit frameSize n bodies complete ∧ readFrames (complete.length + 1) reader =
        complete.map (fun body => .ok (some body)) ++
          [if (complete.map frameSize).sum = n then .ok none else .error (.io .unexpectedEof)]) ∧
    ∀ (reader : Reader UInt8) (head rest : Bytes), head.length = 4 → reader.rest = head ++ rest →
      (beInt head < 0 → (readFrame reader).1 = .error (.invalidLength (beInt head)) ∧ (readFrame reader).2.rest = rest) ∧
      ((maxFrameSize : Int) < beInt head →
        (readFrame reader).1 = .error (.tooLarge (beInt head).toNat) ∧ (readFrame reader).2.rest = rest) := by
  refine ⟨bodies.flatMap frameBytes, by rw [writeFrames_ok hsize, List.nil_append], ?_, ?_, ?_⟩
  · intro reader n hreader
    obtain ⟨reader', hend, hframes⟩ := readFrames_append hsize n (hreader.trans (List.append_nil _).symm)
    rw [hframes, readFrames_end n hend]
  · intro reader n hn hreader
    obtain ⟨complete, hfit⟩ := LongestFit.exists_fit frameSize n bodies
    refine ⟨complete, hfit, ?_⟩
    obtain ⟨tail, htake, hcut, htail⟩ := take_frames hfit
    have hcomplete : ∀ body ∈ complete, body.length ≤ maxFrameSize := fun body hmem => hsize body (hfit.isPrefix.subset hmem)
    obtain ⟨reader', hrest, hframes⟩ := readFrames_append hcomplete 1 (hreader.trans htake)
    obtain ⟨hout, -⟩ := readFrame_eq reader'
    have hlength := htail (by simpa [List.length_flatMap] using hn)
    have hfits := hfit.fits
    rw [hframes, readFrames, readFrames, hout, hrest]
    rcases hcut with rfl | ⟨body, hmem, k, hpos, hlt, rfl⟩
    · rw [List.length_nil] at hlength
      rw [frameOf_nil, if_pos (by omega)]
    · rw [List.length_take, length_frameBytes] at hlength
      rw [frameOf_cut (hsize body hmem) hpos hlt, if_neg (by omega)]
  · intro reader head rest hhead hreader
    obtain ⟨hout, hleft⟩ := readFrame_eq reader
    have hne : head ++ rest ≠ [] := List.length_pos_iff.1 (by rw [List.length_append]; omega)
    have hlong : ¬ (head ++ rest).length < 4 := by rw [List.length_append]; omega
    have hframe : frameOf (head ++ rest) = match decodeFrameLength (beInt head) with
      | .error error => (.error error, rest)
      | .ok length => (if length ≤ rest.length then .ok (some (rest.take length)) else .error (.io .unexpectedEof),
          rest.drop length) := by
      rw [frameOf, if_neg hne, if_neg hlong, List.take_left' hhead, List.drop_left' hhead]
    rw [hreader, hframe] at hout hleft
    refine ⟨fun hnegative => ?_, fun hlarge => ?_⟩
    · rw [decodeFrameLength, if_pos hnegative] at hout hleft
      exact ⟨hout, hleft⟩
    · have hmax : maxFrameSize < (beInt head).toNat := by omega
      rw [decodeFrameLength, if_neg (by omega), if_pos hmax] at hout hleft
      exact ⟨hout, hleft⟩

/-- Two frames, one of them empty, that arrive in four pieces, and what is read if the last one of them is lost. -/
theorem frames_round_trip_pieces :
    readFrames 3 ⟨[[0, 0], [0, 3, 1], [2, 3, 0, 0, 0], [0]], by decide⟩ = [.ok (some [1, 2, 3]), .ok (some []), .ok none] ∧
    readFrames 2 ⟨[[0, 0], [0, 3, 1], [2, 3, 0, 0, 0]], by decide⟩ =
      [.ok (some [1, 2, 3]), .error (.io .unexpectedEof)] := by
  have hstream : [[1, 2, 3], []].foldlM writeFrame [] = .ok [0, 0, 0, 3, 1, 2, 3, 0, 0, 0, 0] := by decide +kernel
  obtain ⟨stream, hwritten, hwhole, hcut, -⟩ := frames_round_trip [[1, 2, 3], []] (by decide)
  obtain rfl := Except.ok.inj (hstream.symm.trans hwritten)
  refine ⟨hwhole ⟨[[0, 0], [0, 3, 1], [2, 3, 0, 0, 0], [0]], by decide⟩ 1 rfl, ?_⟩
  obtain ⟨complete, hfit, hframes⟩ := hcut ⟨[[0, 0], [0, 3, 1], [2, 3, 0, 0, 0]], by decide⟩ 10 (by decide) rfl
  -- the second frame has one byte less than its length
  have hfirst := (hfit.longest [[1, 2, 3]] (by decide) (by decide)).length_le
  have hcomplete := List.prefix_iff_eq_take.1 hfit.isPrefix
  have hone : complete.length = 1 := by
    have hle := hfit.isPrefix.length_le
    have hfits := hfit.fits
    by_contra hne
    rw [show complete.length = 2 by simp only [List.length_cons, List.length_nil] at hfirst hle; omega] at hcomplete
    rw [hcomplete] at hfits
    exact absurd hfits (by decide)
  rw [hone] at hcomplete
  subst hcomplete
  exact hframes

end MemKafka
