import MachineFleet.Fleet.Workload
import MachineFleet.Proofs.Data.Base64.Standard

namespace MachineFleet

variable {text : String} {bytes : List UInt8}

theorem ofString_encodeBase64 (bytes : List UInt8) :
    Utf8.ofString (encodeBase64 bytes) = Base64.encode bytes := by
  obtain ⟨text, htext⟩ := Utf8.exists_ofString (Base64.lt_of_mem_encode bytes)
  rw [encodeBase64, htext, Utf8.toStringLossy_ofString]

theorem decodeBase64_eq_ok_iff_decode :
    decodeBase64 text = .ok bytes ↔ Base64.decode (Utf8.ofString text) = .ok bytes := by
  unfold decodeBase64
  cases Base64.decode (Utf8.ofString text) <;> simp [Except.mapError]

theorem decodeBase64_eq_ok_iff : decodeBase64 text = .ok bytes ↔ text = encodeBase64 bytes := by
  rw [decodeBase64_eq_ok_iff_decode, Base64.decode_eq_ok_iff]
  constructor
  · intro h
    rw [encodeBase64, ← h, Utf8.toStringLossy_ofString]
  · rintro rfl
    exact ofString_encodeBase64 bytes

theorem exists_decodeBase64_eq_error (h : ∀ bytes, decodeBase64 text ≠ .ok bytes) :
    ∃ fault, decodeBase64 text = .error (.base64 fault) := by
  unfold decodeBase64 at h ⊢
  cases hread : Base64.decode (Utf8.ofString text) with
  | ok bytes => exact absurd (by rw [hread]; rfl) (h bytes)
  | error fault => exact ⟨fault, rfl⟩

/-- What a body is read as, marked as base64 or not. -/
structure ReadsBody (isBase64 : Bool) (body : String) (read : Except Error (List UInt8)) : Prop
    where
  standard : isBase64 = true →
    ∀ bytes, read = .ok bytes ↔ Base64.IsStandard (Utf8.ofString body) bytes
  written : isBase64 = true → ∀ bytes, read = .ok bytes ↔ body = encodeBase64 bytes
  refused : isBase64 = true → (∀ bytes, body ≠ encodeBase64 bytes) →
    ∃ fault, read = .error (.base64 fault)
  plain : isBase64 = false → read = .ok (Utf8.ofString body)

theorem readsBody_decodeBase64 (isBase64 : Bool) (body : String) :
    ReadsBody isBase64 body
      (if isBase64 then decodeBase64 body else .ok (Utf8.ofString body)) where
  standard h bytes := by
    rw [if_pos h, decodeBase64_eq_ok_iff_decode, Base64.decode_eq_ok_iff_isStandard]
  written h bytes := by
    rw [if_pos h, decodeBase64_eq_ok_iff]
  refused h hnone := by
    rw [if_pos h]
    exact exists_decodeBase64_eq_error fun bytes hread =>
      hnone bytes (decodeBase64_eq_ok_iff.1 hread)
  plain h := by simp [h]

/-- An empty body stands for no bytes whether it is decoded or not, so a request that does not
decode it is read as a response is. -/
theorem WorkloadRequest.decodedBody_eq (r : WorkloadRequest) :
    r.decodedBody = if r.isBase64 then decodeBase64 r.body else .ok (Utf8.ofString r.body) := by
  rw [decodedBody]
  by_cases hempty : r.body = ""
  · rw [hempty]
    cases r.isBase64 <;> rfl
  · simp [hempty]

/-- Whatever bytes are written in base64 into an envelope, none included, are read back from it, and
a text so marked that is read as some bytes is the one text that is written for them. Every other
text so marked is refused as no base64, and a body without the mark is read as its UTF-8 bytes. -/
theorem bodies_are_read_as_marked :
    (∀ r : WorkloadRequest, ReadsBody r.isBase64 r.body r.decodedBody) ∧
      ∀ r : WorkloadResponse, ReadsBody r.isBase64 r.body r.decodedBody := by
  refine ⟨fun r => ?_, fun r => readsBody_decodeBase64 r.isBase64 r.body⟩
  rw [r.decodedBody_eq]
  exact readsBody_decodeBase64 r.isBase64 r.body

end MachineFleet
