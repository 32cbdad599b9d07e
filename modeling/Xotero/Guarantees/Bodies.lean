import Xotero.Http.Body

/-!
Bodies are admitted whole or not at all. The frames of a body only matter as far as
their bytes do, and a compressed body as far as what it decodes to.
-/

namespace Xotero

/-- A body is read whole if its encoding is known and neither it nor what it decodes to
is longer than the limit. -/
structure AdmitsExactly (gunzip : List UInt8 → Reader UInt8) (limit : Nat)
    (encoding : Option (List UInt8)) (data : List UInt8)
    (answer : Except Nat (List UInt8)) : Prop where
  plain : (∀ value ∈ encoding, sameLetters value (asciiBytes "identity")) →
    answer = if data.length ≤ limit then .ok data else .error 413
  gzip : (∃ value ∈ encoding, sameLetters value (asciiBytes "gzip")) →
    answer = if limit < data.length then .error 413
      else if limit < (gunzip data).word.length then .error 413
      else if (gunzip data).ends then .ok (gunzip data).word
      else .error 400
  other : (∃ value ∈ encoding, ¬ sameLetters value (asciiBytes "identity") ∧
    ¬ sameLetters value (asciiBytes "gzip")) → answer = .error 415

/-- What is not gzip, nor of another encoding that is refused. -/
theorem not_gzip_of_identity {value : List UInt8}
    (plain : sameLetters value (asciiBytes "identity") = true) :
    ¬ sameLetters value (asciiBytes "gzip") = true := by
  simp only [sameLetters, decide_eq_true_eq] at plain ⊢
  rw [plain]
  decide

/-- The body that `buffered_body` returns, for every limit that has a successor. -/
theorem bufferedBody_exact (gunzip : List UInt8 → Reader UInt8) (size : List UInt8 → Nat)
    {limit : Nat} (fits : limit < 2 ^ 64 - 1) (encoding : Option (List UInt8))
    (frames : List BodyFrame) :
    AdmitsExactly gunzip limit encoding (frames.flatMap BodyFrame.bytes)
      (Framed.bufferedBody gunzip size encoding limit frames) := by
  have collected := @Framed.collect_eq limit [] frames fits (Nat.zero_le limit)
  rw [List.length_nil, Nat.zero_add, List.nil_append] at collected
  refine ⟨fun plain => ?_, ?_, ?_⟩
  · cases encoding with
    | none => exact collected
    | some value =>
        have plain := plain value rfl
        rw [Framed.bufferedBody, if_neg (not_gzip_of_identity plain), if_pos plain]
        exact collected
  · rintro ⟨value, rfl, gzip⟩
    rw [Framed.bufferedBody, if_pos gzip, collected]
    by_cases long : limit < (frames.flatMap BodyFrame.bytes).length
    · rw [if_pos long, if_neg (by omega)]
    · rw [if_neg long, if_pos (by omega)]
      exact Framed.decodeGzip_eq fits _ size
  · rintro ⟨value, rfl, other, gzip⟩
    rw [Framed.bufferedBody, if_neg gzip, if_neg other]

/-- Nothing, as gzip writes it. -/
def emptyGzip : List UInt8 :=
  [0x1f, 0x8b, 8, 0, 0, 0, 0, 0, 0, 0xff, 3, 0, 0, 0, 0, 0, 0, 0, 0, 0]

/-- A decoder that knows no other input. -/
def emptyGunzip (raw : List UInt8) : Reader UInt8 := .ofList [] (raw = emptyGzip)

/-- In two parts with trailers between them. -/
theorem bufferedBody_exact_gzip :
    Framed.bufferedBody emptyGunzip List.length (some (asciiBytes "GZip")) 20
      [.data (emptyGzip.take 7), .trailers, .data (emptyGzip.drop 7)] = .ok [] :=
  (bufferedBody_exact emptyGunzip List.length (by decide) (some (asciiBytes "GZip"))
    [.data (emptyGzip.take 7), .trailers, .data (emptyGzip.drop 7)]).gzip ⟨_, rfl, by decide⟩

/-- An empty body in an encoding that is not known is refused, and behind the greatest
limit the budget wraps around to nothing, so that a byte is lost. -/
theorem bufferedBody_inexact :
    Framed.bufferedBody emptyGunzip List.length (some (asciiBytes "br")) 64 [] = .error 415 ∧
    Framed.bufferedBody emptyGunzip List.length none (2 ^ 64 - 1) [.data [120]] = .ok [] :=
  ⟨rfl, rfl⟩

end Xotero
