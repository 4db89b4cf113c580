/-
  The texts that identify actions.

  A key and a receipt are each identified by the digest of a canonical text.
  The text of a valid receipt keeps the limits of `strictJSON` and is decoded to
  the receipt (`decode_canonicalRequest`), so different receipts have different
  texts, as different keys have.
-/
import HomeLab.Lib.JsonText
import HomeLab.ActionProtocol.Wire

namespace HomeLab

namespace ActionProtocol

open ActionCore

/-! ## Texts -/

variable {s raw : Bytes}

theorem utf8_of_identifier {pre : Bytes} (hpre : ∀ b ∈ pre, b < 128)
    (h : ActionProtocol.identifier s pre = true) : Utf8.valid s = true := by
  simp only [ActionProtocol.identifier, hexValue, Bool.and_eq_true,
    List.isPrefixOf_iff_prefix] at h
  obtain ⟨⟨rest, rfl⟩, -, hhex⟩ := h
  rw [List.drop_left] at hhex
  exact Utf8.valid_tagged_hex hpre hhex

theorem utf8_of_hexValue {n : ℕ} (h : hexValue s n = true) : Utf8.valid s = true := by
  simp only [hexValue, Bool.and_eq_true] at h
  exact @Utf8.valid_tagged_hex [] _ (List.forall_mem_nil _) h.2

theorem utf8_of_revision (h : revision s = true) : Utf8.valid s = true := by
  simp only [revision, Bool.and_eq_true] at h
  exact Utf8.valid_of_digit_or_mark fun b hb => Or.inl (List.all_eq_true.1 h.1.2 b hb)

theorem utf8_of_httpTime {t : Instant} (h : parseHTTPTime s = some t) :
    Utf8.valid s = true := by
  rw [← (parseHTTPTime_spec h).2.2.2]
  refine Utf8.valid_of_digit_or_mark fun b hb => ?_
  rw [formatHTTPTime, List.mem_append, List.mem_cons, List.mem_append, List.mem_singleton] at hb
  rcases hb with hb | rfl | hb | rfl
  · exact mem_formatSeconds hb
  · exact Or.inr (by decide)
  · exact Or.inl (isDigit_of_mem_fixed hb)
  · exact Or.inr (by decide)

/-- The bytes of target keys and of correlation ids are ASCII. -/
theorem lt_of_name_byte : ∀ n < 256, (correlation.alphanumeric n.toUInt8 ||
    n.toUInt8 ∈ ascii "._:-") = true → n < 128 := by
  decide +kernel

theorem utf8_of_correlation (h : correlation s = true) : Utf8.valid s = true := by
  simp only [correlation, Bool.and_eq_true] at h
  refine Utf8.valid_of_lt fun b hb => ?_
  have hbyte : b.toNat.toUInt8 = b := by simp
  have hname := List.all_eq_true.1 h.1.2 b hb
  rw [← hbyte] at hname
  exact UInt8.lt_iff_toNat_lt.2 (lt_of_name_byte b.toNat b.toNat_lt hname)

theorem utf8_of_targetKey (h : ActionProtocol.targetKey s = true) :
    Utf8.valid s = true := by
  simp only [ActionProtocol.targetKey, Bool.and_eq_true] at h
  refine Utf8.valid_of_lt fun b hb => ?_
  have hkey := List.all_eq_true.1 h.2 b hb
  simp only [Bool.or_eq_true, Bool.and_eq_true, decide_eq_true_eq] at hkey
  rcases hkey with ((⟨-, h⟩ | ⟨-, h⟩) | rfl) | rfl
  · exact lt_of_le_of_lt h (by decide)
  · exact lt_of_le_of_lt h (by decide)
  · decide
  · decide

/-! ## Receipts -/

variable [Sha256]

/-- The codec asks for exactly the named fields, of the receipt and of its
    parameters, and for a valid receipt. -/
def decodeRequest (raw : Bytes) : Option RequestReceipt :=
  if !strictJSON raw then none else (Json.parse raw).bind RequestReceipt.codec.ofJson

/-- The parameters of a valid receipt are read back, and have only small numbers. -/
theorem parameters_of_digest {operation : Operation} {p : Parameters} {hash : Bytes}
    (h : parameterDigest operation p = some hash) :
    Parameters.codec.Good p ∧ strictValue 1 p.json = true := by
  obtain ⟨⟨version, ⟨seconds, null⟩⟩, rfl⟩ : ∃ q, q = p := ⟨p, rfl⟩
  obtain ⟨rfl, hstart, hother⟩ := grace_of_parameterDigest h
  have hnumber : ∀ n < 31, strictValue 2 (.num (decimal n)) = true := by decide
  have hgrace : Grace.codec.Good ⟨seconds, null⟩ := by
    by_cases hop : operation = .start
    · subst hop
      rw [parameterDigest, Option.map_eq_some_iff] at h
      obtain ⟨text, htext, -⟩ := h
      simp only [parameterText, ne_eq, not_true_eq_false, if_false] at htext
      split_ifs at htext with hg
      simp only [Bool.or_eq_true, Bool.not_eq_true', decide_eq_true_eq, not_or, not_not,
        Bool.not_eq_false] at hg
      exact Or.inl (by rw [hg.1, hg.2])
    · exact Or.inr (hother hop)
  refine ⟨⟨(by decide : (0 : ℤ) ≤ 1 ∧ (1 : ℤ) < 2 ^ 63), hgrace, trivial⟩, ?_⟩
  have hjson : strictValue 2 (Grace.json ⟨seconds, null⟩) = true := by
    rcases hgrace with hg | ⟨hg, -, hle⟩
    · cases hg
      rfl
    · cases hg
      exact hnumber seconds.toNat (Nat.lt_succ_of_le (UInt8.le_iff_toNat_le.1 hle))
  simp only [Parameters.json, strictValue, strictFields, hjson, List.map_cons, List.map_nil]
  decide

variable {r : RequestReceipt} {created expires : Instant}

theorem RequestReceipt.Valid.textual (h : r.Valid created expires) : r.json.Textual := by
  have hop : Utf8.valid r.operation.text = true := by cases r.operation <;> decide
  have hnames : ∀ k ∈ RequestReceipt.names, Utf8.valid k = true := by decide
  have hparameters : r.parameters.json.Textual := by
    obtain ⟨version, ⟨seconds, null⟩⟩ := r.parameters
    cases null
    · exact ⟨by decide, trivial, by decide, trivial, trivial⟩
    · exact ⟨by decide, trivial, by decide, trivial, trivial⟩
  refine Json.textual_obj.2 fun f hf => ⟨hnames f.1 (List.of_mem_zip hf).1, ?_⟩
  have hvalue := (List.of_mem_zip hf).2
  revert hvalue
  generalize f.2 = v
  simp only [List.mem_cons, List.not_mem_nil, or_false]
  rintro (rfl | rfl | rfl | rfl | rfl | rfl | rfl | rfl | rfl | rfl | rfl | rfl | rfl | rfl | rfl |
    rfl)
  · exact utf8_of_identifier (by decide) h.action
  · exact utf8_of_identifier (by decide) h.server
  · exact utf8_of_identifier (by decide) h.owner
  · exact h.actor ▸ utf8_of_identifier (by decide) h.owner
  · exact utf8_of_identifier (by decide) h.connector
  · exact hop
  · exact utf8_of_identifier (by decide) h.target
  · exact utf8_of_targetKey h.key
  · exact utf8_of_hexValue h.idempotency
  · exact utf8_of_revision h.policy
  · exact utf8_of_revision h.capability
  · exact hparameters
  · exact utf8_of_hexValue h.sha
  · exact utf8_of_httpTime h.requested
  · exact utf8_of_httpTime h.expiry
  · exact utf8_of_correlation h.correlation

theorem RequestReceipt.Valid.strict (h : r.Valid created expires) :
    strictJSON r.json.render = true := by
  have hwell : r.json.WellFormed := RequestReceipt.codec.wellFormed r
  refine (strictJSON_render hwell).2 ⟨h.length, Json.valid_render _ hwell h.textual, ?_⟩
  have hnames : (RequestReceipt.names.map id).Nodup := by decide
  simp only [RequestReceipt.json, RequestReceipt.names, List.zip_cons_cons, List.zip_nil_right,
    strictValue, strictFields, (parameters_of_digest h.digest).2, Bool.and_true,
    List.map_cons, List.map_nil]
  exact decide_eq_true hnames

/-- **A valid receipt is decoded from its canonical text.** -/
theorem decode_canonicalRequest {r : RequestReceipt} (h : validateRequest r = true) :
    ∃ raw, canonicalRequest r = some raw ∧ decodeRequest raw = some r := by
  obtain ⟨created, expires, hr⟩ := validateRequest_spec h
  refine ⟨r.json.render, ?_, ?_⟩
  · rw [canonicalRequest, if_neg (by simp [h])]
    exact if_neg (not_lt.2 hr.length)
  · have hop : r.operation ∈ [Operation.start, .stop, .restart] := by cases r.operation <;> decide
    have hwell : r.json.WellFormed := RequestReceipt.codec.wellFormed r
    rw [decodeRequest, if_neg (by simp [hr.strict]), Json.parse_render hwell, Option.bind_some]
    exact RequestReceipt.codec.encoded ⟨⟨trivial, trivial, trivial, trivial, trivial, hop, trivial,
      trivial, trivial, trivial, trivial, (parameters_of_digest hr.digest).1, trivial, trivial,
      trivial, trivial, trivial⟩, h⟩

theorem validateRequest_of_canonical {r : RequestReceipt} (h : canonicalRequest r = some raw) :
    validateRequest r = true := by
  rw [canonicalRequest] at h
  split_ifs at h with hvalid
  simpa using hvalid

theorem canonicalRequest_injective {r r' : RequestReceipt} (h : canonicalRequest r = some raw)
    (h' : canonicalRequest r' = some raw) : r = r' := by
  obtain ⟨raw₁, h₁, hdecode⟩ := decode_canonicalRequest (validateRequest_of_canonical h)
  obtain ⟨raw₂, h₂, hdecode'⟩ := decode_canonicalRequest (validateRequest_of_canonical h')
  cases h.symm.trans h₁
  cases h'.symm.trans h₂
  exact Option.some.inj (hdecode.symm.trans hdecode')

theorem canonical_of_parseJournalMetadata {k : Key} (h : parseJournalMetadata raw = some k) :
    canonicalJournalMetadata k = some raw := by
  unfold parseJournalMetadata at h
  split_ifs at h
  obtain ⟨v, -, h⟩ := Option.bind_eq_some_iff.1 h
  split_ifs at h
  obtain ⟨created, -, h⟩ := Option.bind_eq_some_iff.1 h
  obtain ⟨expires, -, h⟩ := Option.bind_eq_some_iff.1 h
  obtain ⟨operation, -, h⟩ := Option.bind_eq_some_iff.1 h
  obtain ⟨encoded, hencoded, h⟩ := Option.bind_eq_some_iff.1 h
  split_ifs at h with heq
  cases h
  rw [hencoded, heq]

/-- **The texts that identify actions are exact.**  Keys and receipts are read
    back from their canonical texts, which are the only texts of keys that are
    read, and different keys and receipts have different texts.  So two that
    share a digest are two texts that the digest function maps to one value. -/
theorem identities_exact :
    (∀ k raw, canonicalJournalMetadata k = some raw → parseJournalMetadata raw = some k) ∧
    (∀ raw, (parseJournalMetadata raw).isSome = true ↔
      ∃ k, canonicalJournalMetadata k = some raw) ∧
    (∀ k k' raw, canonicalJournalMetadata k = some raw →
      canonicalJournalMetadata k' = some raw → k = k') ∧
    (∀ r, validateRequest r = true →
      ∃ raw, canonicalRequest r = some raw ∧ decodeRequest raw = some r) ∧
    (∀ r r' raw, canonicalRequest r = some raw → canonicalRequest r' = some raw → r = r') ∧
    (∀ k k' raw raw', canonicalJournalMetadata k = some raw →
      canonicalJournalMetadata k' = some raw' → k.fingerprint = k'.fingerprint → k ≠ k' →
        raw ≠ raw' ∧ Sha256.sum256 raw = Sha256.sum256 raw') ∧
    (∀ r r' d, receiptDigest r = some d → receiptDigest r' = some d → r ≠ r' →
      ∃ raw raw', canonicalRequest r = some raw ∧ canonicalRequest r' = some raw' ∧ raw ≠ raw' ∧
        Sha256.sum256 (ascii "platform-container-receipt/v1\n" ++ raw) =
          Sha256.sum256 (ascii "platform-container-receipt/v1\n" ++ raw')) := by
  refine ⟨fun _ _ => parse_canonicalJournalMetadata, fun raw => ⟨fun h => ?_, fun ⟨k, h⟩ => ?_⟩,
    fun _ _ _ => canonicalJournalMetadata_injective, fun _ => decode_canonicalRequest,
    fun _ _ _ => canonicalRequest_injective, fun k k' raw raw' h h' hdigest hne => ⟨?_, ?_⟩,
    fun r r' d h h' hne => ?_⟩
  · obtain ⟨k, hk⟩ := Option.isSome_iff_exists.1 h
    exact ⟨k, canonical_of_parseJournalMetadata hk⟩
  · exact Option.isSome_of_eq_some (parse_canonicalJournalMetadata h)
  · rintro rfl
    exact hne (canonicalJournalMetadata_injective h h')
  · obtain ⟨hk, rfl⟩ := canonicalJournalMetadata_eq_some.1 h
    obtain ⟨hk', rfl⟩ := canonicalJournalMetadata_eq_some.1 h'
    rw [← hk.digest, ← hk'.digest, hdigest]
  · obtain ⟨raw, hraw, hd⟩ := Option.map_eq_some_iff.1 h
    obtain ⟨raw', hraw', hd'⟩ := Option.map_eq_some_iff.1 h'
    refine ⟨raw, raw', hraw, hraw', ?_, hd.trans hd'.symm⟩
    rintro rfl
    exact hne (canonicalRequest_injective hraw hraw')

end ActionProtocol

end HomeLab
