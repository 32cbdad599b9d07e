import Xotero.Foundation.Reader
import Xotero.Http.Serve

/-!
The body of a request, once its frames have arrived: what `buffered_body` makes of
them in machine arithmetic, with the decoder as a reader that is cut off one byte
behind the limit. Waiting for a permit and for the blocking task is left out.
-/

namespace Xotero

/-- Addition of `usize`, which wraps around in a release build. -/
def addUsize (a b : Nat) : Nat := (a + b) % 2 ^ 64

inductive BodyFrame where
  | data (bytes : List UInt8)
  | trailers

def BodyFrame.bytes : BodyFrame → List UInt8
  | .data bytes => bytes
  | .trailers => []

/-- The bytes of an ASCII text. -/
def asciiBytes (s : String) : List UInt8 := s.toList.map fun c => c.toNat.toUInt8

/-- `u8::to_ascii_lowercase` -/
def lowerByte (b : UInt8) : UInt8 := if 65 ≤ b && b ≤ 90 then b + 32 else b

/-- `[u8]::eq_ignore_ascii_case` -/
def sameLetters (a b : List UInt8) : Bool := a.map lowerByte = b.map lowerByte

namespace Framed

/-- The loop over the frames. -/
def collect (limit : Nat) : List UInt8 → List BodyFrame → Except Nat (List UInt8)
  | raw, [] => .ok raw
  | raw, .trailers :: frames => collect limit raw frames
  | raw, .data data :: frames =>
      let remaining := addUsize limit 1 - raw.length
      let raw := raw ++ data.take (min data.length remaining)
      if limit < raw.length then .error 413 else collect limit raw frames

/-- `size` is what `read_to_end` makes of its buffer. -/
def decodeGzip (decoder : Reader UInt8) (size : List UInt8 → Nat) (limit : Nat) :
    Except Nat (List UInt8) :=
  let taken := decoder.take (addUsize limit 1)
  match taken.readToEnd size taken.start [] with
  | none => .error 400
  | some out => if limit < out.length then .error 413 else .ok out

/-- `encoding` is the first `content-encoding` header. -/
def bufferedBody (gunzip : List UInt8 → Reader UInt8) (size : List UInt8 → Nat)
    (encoding : Option (List UInt8)) (limit : Nat) (frames : List BodyFrame) :
    Except Nat (List UInt8) :=
  match encoding with
  | none => collect limit [] frames
  | some value =>
      if sameLetters value (asciiBytes "gzip") then
        match collect limit [] frames with
        | .ok raw => decodeGzip (gunzip raw) size limit
        | .error status => .error status
      else if sameLetters value (asciiBytes "identity") then collect limit [] frames
      else .error 415

section
variable {limit : Nat} {raw : List UInt8} {frames : List BodyFrame}

theorem addUsize_one (fits : limit < 2 ^ 64 - 1) : addUsize limit 1 = limit + 1 :=
  Nat.mod_eq_of_lt (by omega)

/-- The budget of one byte behind the limit tells a body that fits from one that does
not, however it is cut into frames. -/
theorem collect_eq (fits : limit < 2 ^ 64 - 1) (room : raw.length ≤ limit) :
    collect limit raw frames =
      if raw.length + (frames.flatMap BodyFrame.bytes).length ≤ limit then
        .ok (raw ++ frames.flatMap BodyFrame.bytes)
      else .error 413 := by
  induction frames generalizing raw with
  | nil => simp [collect, room]
  | cons frame frames ih =>
      cases frame with
      | trailers => exact ih room
      | data data =>
          rw [collect, addUsize_one fits]
          simp only [List.flatMap_cons, BodyFrame.bytes, List.length_append, List.length_take]
          by_cases here : raw.length + data.length ≤ limit
          · have whole : data.take (min data.length (limit + 1 - raw.length)) = data :=
              List.take_of_length_le (by omega)
            rw [if_neg (by omega), whole, ih (by rw [List.length_append]; exact here),
              List.length_append, Nat.add_assoc, List.append_assoc]
          · rw [if_pos (by omega), if_neg (by omega)]

/-- More than the limit is noticed before the end and before a failure. -/
theorem decodeGzip_eq (fits : limit < 2 ^ 64 - 1) (decoder : Reader UInt8)
    (size : List UInt8 → Nat) :
    decodeGzip decoder size limit =
      if limit < decoder.word.length then .error 413
      else if decoder.ends then .ok decoder.word
      else .error 400 := by
  rw [decodeGzip, addUsize_one fits]
  simp only [Reader.take_readToEnd]
  by_cases more : limit < decoder.word.length
  · have length : (decoder.word.take (limit + 1)).length = limit + 1 :=
      List.length_take_of_le more
    rw [if_pos (by simp [Nat.succ_le_of_lt more]), if_pos more]
    simp only [length, if_pos (Nat.lt_succ_self limit)]
  · have whole : decoder.word.take (limit + 1) = decoder.word :=
      List.take_of_length_le (by omega)
    have cut : decide (limit + 1 ≤ decoder.word.length) = false := decide_eq_false (by omega)
    rw [cut, Bool.false_or, whole, if_neg more]
    cases decoder.ends with
    | true => exact if_neg more
    | false => rfl

/-- The same of the decoder of the middleware, which is given by its word and its end. -/
theorem decodeGzip_gunzip (fits : limit < 2 ^ 64 - 1) (decoder : Reader UInt8)
    (size : List UInt8 → Nat) (raw : List UInt8) :
    Xotero.decodeGzip (fun _ => (decoder.word, decoder.ends)) limit raw =
      decodeGzip decoder size limit := by
  rw [decodeGzip_eq fits]
  simp only [Xotero.decodeGzip, List.length_take]
  by_cases more : limit < decoder.word.length
  · rw [if_pos (by omega), if_pos more]
  · rw [if_neg (by omega), if_neg more, List.take_of_length_le (by omega)]
    cases decoder.ends <;> rfl

end

end Framed

/-! ### Frames in time -/

/-- Polled `n` times, the body has given these frames and its end. -/
inductive BodyStream.Delivers : BodyStream → List BodyFrame → Nat → Prop where
  | finished {body : BodyStream} (last : body.poll.1 = .finished) : Delivers body [] 1
  | pending {body : BodyStream} {frames : List BodyFrame} {n : Nat}
      (waits : body.poll.1 = .pending) (rest : Delivers body.poll.2 frames n) :
      Delivers body frames (n + 1)
  | frame {body : BodyStream} {frame : BodyFrame} {frames : List BodyFrame} {n : Nat}
      (arrives : body.poll.1 = match frame with
        | .data bytes => .data bytes
        | .trailers => .trailers)
      (rest : Delivers body.poll.2 frames n) : Delivers body (frame :: frames) (n + 1)

/-- The loop of the middleware, which polls, comes to what the frames amount to. -/
theorem BodyStream.Delivers.collectFrames {body : BodyStream} {frames : List BodyFrame} {n : Nat}
    (delivers : body.Delivers frames n) {limit fuel : Nat} (fits : limit < 2 ^ 64 - 1)
    (enough : n ≤ fuel) (raw : List UInt8) :
    (collectFrames limit fuel raw body).1 = some (Framed.collect limit raw frames) := by
  induction delivers generalizing fuel raw with
  | @finished body last =>
      obtain ⟨fuel, rfl⟩ := Nat.exists_eq_succ_of_ne_zero (by omega : fuel ≠ 0)
      have step : body.poll = (.finished, body.poll.2) := Prod.ext last rfl
      rw [Xotero.collectFrames, step]
      rfl
  | @pending body frames n waits rest ih =>
      obtain ⟨fuel, rfl⟩ := Nat.exists_eq_succ_of_ne_zero (by omega : fuel ≠ 0)
      have step : body.poll = (.pending, body.poll.2) := Prod.ext waits rfl
      rw [Xotero.collectFrames, step]
      exact ih (by omega) raw
  | @frame body frame frames n arrives rest ih =>
      obtain ⟨fuel, rfl⟩ := Nat.exists_eq_succ_of_ne_zero (by omega : fuel ≠ 0)
      cases frame with
      | trailers =>
          have step : body.poll = (.trailers, body.poll.2) := Prod.ext arrives rfl
          rw [Xotero.collectFrames, step]
          exact ih (by omega) raw
      | data bytes =>
          have step : body.poll = (.data bytes, body.poll.2) := Prod.ext arrives rfl
          have clipped : bytes.take (min bytes.length (limit + 1 - raw.length)) =
              bytes.take (limit + 1 - raw.length) := by
            rw [Nat.min_comm, ← List.take_eq_take_min]
          rw [Xotero.collectFrames, step, Framed.collect, Framed.addUsize_one fits, clipped]
          dsimp only
          split
          · rfl
          · exact ih (by omega) _

end Xotero
