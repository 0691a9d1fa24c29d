import PicoSentry.Watch.HexScan

namespace PicoSentry.Watch.Normalizer

open Foundation

section Encodings

inductive Encoding where
  | standard
  | urlsafe
  | urlsafeUnpadded
  | hexadecimal
  deriving DecidableEq

def Encoding.Encodes (encoding : Encoding) (payload s : Str) : Prop :=
  match encoding with
  | .standard => s = Base64.encode (payload.map Char.toNat)
  | .urlsafe => s = Base64.urlsafeEncode (payload.map Char.toNat)
  | .urlsafeUnpadded => s = Base64.urlsafeBody (payload.map Char.toNat)
  | .hexadecimal => Base64.Hex (payload.map Char.toNat) s

def PrintableAscii (payload : Str) : Prop := ∀ c ∈ payload, 32 ≤ c.toNat ∧ c.toNat ≤ 126

def Delimited (T : CharTables) (s text : Str) : Prop :=
  ∃ before after, text = before ++ (s ++ after) ∧ (∀ c, before.getLast? = some c → T.space c = true) ∧
    ∀ c, after.head? = some c → T.space c = true

end Encodings

section Payload

variable {T : CharTables} {payload : Str}

theorem textPayload_printable (h : PrintableAscii payload) (hlength : 6 ≤ payload.length) :
    textPayload T (payload.map Char.toNat) = some payload := by
  have hascii : ∀ c ∈ payload, c.toNat < 128 := fun c hc => by
    have hc := h c hc
    omega
  have hstrip : stripControlChars payload = payload := by
    refine List.filter_eq_self.mpr fun c hc => ?_
    have hc := h c hc
    simp only [isControl, Bool.not_eq_true', Bool.or_eq_false_iff, decide_eq_false_iff_not]
    omega
  have hcount : printableCount T payload = payload.length := by
    rw [printableCount, hstrip, if_pos]
    exact List.all_eq_true.mpr fun c hc => decide_eq_true (hascii c hc)
  have htext : isTextlike T (payload.map Char.toNat) payload = true := by
    rw [isTextlike, List.length_map, hcount, if_neg (by omega)]
    exact decide_eq_true (by omega)
  rw [textPayload, Url.decodeIgnoring_ascii hascii, if_pos htext, hstrip]

theorem bytes_printable (h : PrintableAscii payload) : ∀ b ∈ payload.map Char.toNat, b < 256 := by
  intro b hb
  obtain ⟨c,hc,rfl⟩ := List.mem_map.mp hb
  have hc := h c hc
  omega

end Payload

section Search

variable {T : CharTables} {p : Char → Bool}

def Solid (p : Char → Bool) : Prop :=
  ∀ c, p c = true → c.toNat < 128 ∧ asciiSpaces.contains c.toNat = false

theorem Solid.not_of_space (h : Solid p) {c : Char} (hc : T.space c = true) : p c = false := by
  rw [← Bool.not_eq_true]
  intro hp
  obtain ⟨hascii,hsolid⟩ := h c hp
  rw [T.space_ascii c hascii, hsolid] at hc
  cases hc

theorem solid_of_alphanum {c : Char} (h : c.isAlphanum = true) :
    c.toNat < 128 ∧ asciiSpaces.contains c.toNat = false := by
  have hascii : c.toNat < 128 := by
    unfold Char.isAlphanum Char.isAlpha Char.isUpper Char.isLower Char.isDigit at h
    simp only [Bool.or_eq_true, Bool.and_eq_true, decide_eq_true_eq, UInt32.le_iff_toNat_le, ge_iff_le] at h
    have hcode : c.toNat = c.val.toNat := rfl
    have hZ : 'Z'.val.toNat = 90 := rfl
    have hz : 'z'.val.toNat = 122 := rfl
    have h9 : '9'.val.toNat = 57 := rfl
    omega
  have hall : ∀ n < 128, (Char.ofNat n).isAlphanum = true → asciiSpaces.contains n = false := by decide
  rw [← Char.ofNat_toNat c] at h
  exact ⟨hascii, hall c.toNat hascii h⟩

theorem solid_standard : Solid isStandard := by
  intro c hc
  rw [isStandard, Bool.or_eq_true, Bool.or_eq_true, beq_iff_eq, beq_iff_eq] at hc
  rcases hc with (hc | rfl) | rfl
  · exact solid_of_alphanum hc
  · decide
  · decide

theorem solid_urlsafe : Solid isUrlsafe := by
  intro c hc
  rw [isUrlsafe, Bool.or_eq_true, Bool.or_eq_true, beq_iff_eq, beq_iff_eq] at hc
  rcases hc with (hc | rfl) | rfl
  · exact solid_of_alphanum hc
  · decide
  · decide

theorem mem_finditer_delimited {matchAt : Matcher Str} (hsolid : Solid p) (hconsumes : Consumes matchAt p)
    {before s after : Str}
    (hbefore : ∀ c, before.getLast? = some c → T.space c = true) (hne : s ++ after ≠ [])
    (hmatch : ∀ last, matchAt last (s ++ after) = some (s, after)) :
    s ∈ finditer matchAt (before ++ (s ++ after)) := by
  refine mem_finditer.mpr ⟨before, s ++ after, after, ?_, hne, hmatch _⟩
  rcases List.eq_nil_or_concat before with rfl | ⟨front,d,rfl⟩
  · exact .refl
  · rw [List.concat_eq_append] at hbefore ⊢
    have hd : p d = false := hsolid.not_of_space (hbefore d List.getLast?_concat)
    have hreached := reached_behind hd hconsumes [] front (s ++ after)
    rw [List.nil_append, ← List.singleton_append, ← List.append_assoc] at hreached
    exact hreached

theorem consumes_readRun : Consumes (fun _ => readRun p) fun c => p c || c == '=' := by
  intro _ text x after h
  change readRun p text = some (x, after) at h
  rw [readRun] at h
  split at h
  · cases h
  · cases h
    obtain ⟨hpads,hequals⟩ := padsOf_parts (text.dropWhile p)
    refine ⟨text.takeWhile p ++ padsOf (text.dropWhile p), ?_, ?_⟩
    · rw [List.append_assoc, ← hpads, List.takeWhile_append_dropWhile]
    · intro c hc
      change (p c || c == '=') = true
      rcases List.mem_append.mp hc with hc | hc
      · rw [List.mem_takeWhile_imp hc, Bool.true_or]
      · rw [hequals c hc, beq_self_eq_true, Bool.or_true]

theorem readRun_encoding {body after : Str} {n : Nat} (hbody : ∀ c ∈ body, p c = true) (hlength : 12 ≤ body.length)
    (hequal : p '=' = false) (hsolid : Solid p) (hafter : ∀ c, after.head? = some c → T.space c = true) :
    readRun p (body ++ Base64.padding n ++ after) = some (body ++ Base64.padding n, after) := by
  have hblank : ∀ c, after.head? = some c → p c = false := fun c hc => hsolid.not_of_space (hafter c hc)
  have hstop : ∀ c, (Base64.padding n ++ after).head? = some c → p c = false := by
    intro c hc
    cases hpads : Base64.padding n with
    | nil =>
      rw [hpads] at hc
      exact hblank c hc
    | cons d pads =>
      have hd : d = '=' := List.eq_of_mem_replicate (by rw [← Base64.padding, hpads]; exact List.mem_cons_self)
      rw [hpads] at hc
      cases hc
      rw [hd]
      exact hequal
  have hpads : padsOf (Base64.padding n ++ after) = Base64.padding n := by
    have hrun := @run_append (· = '=') (Base64.padding n) after
      (fun c hc => decide_eq_true (List.eq_of_mem_replicate hc))
      (fun c hc => decide_eq_false fun heq => by
        have hspace := hafter c hc
        rw [heq, T.space_ascii _ (by decide)] at hspace
        exact absurd hspace (by decide))
    rw [padsOf, hrun.1, List.take_of_length_le]
    rw [Base64.padding, List.length_replicate]
    omega
  obtain ⟨htake,hdrop⟩ := run_append hbody hstop
  rw [List.append_assoc, readRun, htake, hdrop, hpads, if_neg (by omega), List.drop_left]

theorem solid_or_pad (h : Solid p) : Solid fun c => p c || c == '=' := by
  intro c hc
  rw [Bool.or_eq_true, beq_iff_eq] at hc
  rcases hc with hc | rfl
  · exact h c hc
  · decide

theorem consumes_readHex : Consumes hexRe isStandard := by
  have hdigits : ∀ {text found after : Str}, readHexDigits text = some (found, after) →
      ∀ c ∈ found, isStandard c = true := by
    intro text found after h
    rw [readHexDigits] at h
    split at h
    · cases h
    · cases h
      exact fun c hc => isStandard_of_isHex (List.mem_takeWhile_imp hc)
  intro _ text found after h
  refine ⟨found, (readHex_parts h).1, ?_⟩
  rw [hexRe, readHex] at h
  split at h
  · split at h
    · next pair hpair =>
      cases h
      refine List.forall_mem_append.mpr ⟨forall_mem_of_all (by decide), hdigits hpair⟩
    · exact hdigits h
  · exact hdigits h

theorem readHex_encoding {s after : Str} (hdigits : ∀ c ∈ s, isHex c = true) (hlength : 20 ≤ s.length)
    (hafter : ∀ c, after.head? = some c → T.space c = true) :
    readHex (s ++ after) = some (s, after) ∧ removeHexPrefix s = s := by
  have hblank : ∀ c, after.head? = some c → isStandard c = false := fun c hc =>
    solid_standard.not_of_space (hafter c hc)
  have hprefix : literal "0x".toList s = none := by
    rw [literal, if_neg]
    rintro ⟨tail,rfl⟩
    have hx := hdigits 'x' (by simp)
    exact absurd hx (by decide)
  have hrun : s.takeWhile isHex = s ∧ s.dropWhile isHex = [] := by
    have hall := @run_append isHex s [] hdigits (by simp)
    rwa [List.append_nil] at hall
  have hread : readHex s = some (s, []) := by
    rw [readHex, hprefix]
    dsimp only
    rw [readHexDigits, hrun.1, hrun.2, if_neg (by omega)]
  rw [readHex_stop hblank, hread, removeHexPrefix, hprefix]
  exact ⟨rfl, rfl⟩

end Search

section Recovered

variable {T : CharTables} {payload s text : Str}

theorem mem_runs_delimited {p : Char → Bool} (hsolid : Solid p) (hequal : p '=' = false) {body : Str} {n : Nat}
    (hbody : ∀ c ∈ body, p c = true) (hlength : 12 ≤ body.length) (hdelimited : Delimited T (body ++ Base64.padding n) text) :
    body ++ Base64.padding n ∈ finditer (fun _ => readRun p) text := by
  obtain ⟨before,after,rfl,hbefore,hafter⟩ := hdelimited
  refine mem_finditer_delimited (solid_or_pad hsolid) consumes_readRun hbefore ?_
    fun _ => readRun_encoding hbody hlength hequal hsolid hafter
  intro hnil
  rw [(List.append_eq_nil_iff.mp (List.append_eq_nil_iff.mp hnil).1).1] at hlength
  exact absurd hlength (by decide)

theorem length_body_payload (h : 9 ≤ payload.length) : 12 ≤ (Base64.body (payload.map Char.toNat)).length := by
  have hbody := Base64.length_body (payload.map Char.toNat)
  rw [List.length_map] at hbody
  omega

theorem isStandard_digitChar {d : Nat} (h : d < 64) : isStandard (Base64.digitChar d) = true := by
  have hall : ∀ d < 64, isStandard (Base64.digitChar d) = true := by decide
  exact hall d h

theorem isUrlsafe_digitChar {d : Nat} (h : d < 64) : isUrlsafe (Base64.toUrlsafe (Base64.digitChar d)) = true := by
  have hall : ∀ d < 64, isUrlsafe (Base64.toUrlsafe (Base64.digitChar d)) = true := by decide
  exact hall d h

theorem standard_offered (hprintable : PrintableAscii payload) (hlength : 9 ≤ payload.length)
    (hdelimited : Delimited T (Base64.encode (payload.map Char.toNat)) text) : payload ∈ base64Payloads T text := by
  refine List.mem_append_left _ (List.mem_filterMap.mpr ⟨_, mem_runs_delimited solid_standard (by decide) ?_
    (length_body_payload hlength) hdelimited, ?_⟩)
  · intro c hc
    obtain ⟨d,hd,rfl⟩ := Base64.body_digits _ (bytes_printable hprintable) c hc
    exact isStandard_digitChar hd
  · have hdecode := Base64.decode_encode _ (bytes_printable hprintable)
    rw [Base64.encode] at hdecode
    rw [addDecoded, hdecode]
    exact textPayload_printable hprintable (by omega)

theorem urlsafe_offered (hprintable : PrintableAscii payload) (hlength : 9 ≤ payload.length)
    (hdelimited : Delimited T (Base64.urlsafeEncode (payload.map Char.toNat)) text) :
    payload ∈ base64Payloads T text := by
  refine List.mem_append_right _ (List.mem_filterMap.mpr ⟨_, mem_runs_delimited solid_urlsafe (by decide) ?_
    (by rw [Base64.urlsafeBody, List.length_map]; exact length_body_payload hlength) hdelimited, ?_⟩)
  · intro c hc
    obtain ⟨digit,hdigit,rfl⟩ := List.mem_map.mp hc
    obtain ⟨d,hd,rfl⟩ := Base64.body_digits _ (bytes_printable hprintable) digit hdigit
    exact isUrlsafe_digitChar hd
  · have hdecode := Base64.urlsafeDecode_urlsafeEncode _ (bytes_printable hprintable)
    rw [Base64.urlsafeEncode] at hdecode
    rw [addDecoded, hdecode]
    exact textPayload_printable hprintable (by omega)

theorem hex_offered (hprintable : PrintableAscii payload) (hlength : 10 ≤ payload.length)
    (hhex : Base64.Hex (payload.map Char.toNat) s) (hdelimited : Delimited T s text) :
    payload ∈ subScannedHex T text := by
  obtain ⟨before,after,rfl,hbefore,hafter⟩ := hdelimited
  have hlong : 20 ≤ s.length := by
    rw [hhex.length, List.length_map]
    omega
  obtain ⟨hread,hplain⟩ := readHex_encoding (T := T) hhex.digits hlong hafter
  have hfound : s ∈ finditer hexRe (before ++ (s ++ after)) := by
    refine mem_finditer_delimited solid_standard consumes_readHex hbefore ?_ fun _ => hread
    intro hnil
    rw [(List.append_eq_nil_iff.mp hnil).1] at hlong
    exact absurd hlong (by decide)
  rw [subScannedHex, ← List.filterMap_flatMap, hex_within_runs]
  refine List.mem_filterMap.mpr ⟨s, hfound, ?_⟩
  rw [hexPayload, hplain, hhex.fromHex]
  exact textPayload_printable hprintable (by omega)

theorem mem_decodePass {htmlUnescape : Str → Option Str} {cands : List Str}
    (h : decodePass T htmlUnescape text = some cands) (hoffered : payload ∈ base64Payloads T text ∨
      payload ∈ subScannedHex T text) (hne : payload ≠ []) (hother : payload ≠ text) : payload ∈ cands := by
  rw [decodePass] at h
  obtain ⟨unescaped,_,hcands⟩ := Option.bind_eq_some_iff.mp h
  rw [← Option.some.inj hcands, accepted, mem_firstOf_id_iff, List.mem_filter]
  refine ⟨List.not_mem_nil, ?_, decide_eq_true ⟨hne, hother⟩⟩
  rcases hoffered with hbase | hhex
  · exact List.mem_append_left _ hbase
  · exact List.mem_append_right _ (List.mem_append_right _ (List.mem_append_right _ (List.mem_append_left _ hhex)))

def Encoding.Recoverable (encoding : Encoding) (payload : Str) : Prop :=
  match encoding with
  | .standard => 9 ≤ payload.length
  | .urlsafe => 9 ≤ payload.length
  | .urlsafeUnpadded => False
  | .hexadecimal => 10 ≤ payload.length

theorem encoded_payload_recovered (T : CharTables) (htmlUnescape : Str → Option Str) (encoding : Encoding)
    {payload s text : Str} {cands : List Str} (hprintable : PrintableAscii payload)
    (hrecoverable : encoding.Recoverable payload) (hencodes : encoding.Encodes payload s)
    (hdelimited : Delimited T s text) (hother : payload ≠ text)
    (hcands : decodePass T htmlUnescape text = some cands) : payload ∈ cands := by
  have hne : payload ≠ [] := by
    rintro rfl
    cases encoding <;> exact absurd hrecoverable (by simp [Encoding.Recoverable])
  refine mem_decodePass hcands ?_ hne hother
  cases encoding with
  | standard =>
    rw [hencodes] at hdelimited
    exact .inl (standard_offered hprintable hrecoverable hdelimited)
  | urlsafe =>
    rw [hencodes] at hdelimited
    exact .inl (urlsafe_offered hprintable hrecoverable hdelimited)
  | urlsafeUnpadded => exact absurd hrecoverable id
  | hexadecimal => exact .inr (hex_offered hprintable hrecoverable hencodes hdelimited)

theorem padded_payload_recovered : ∃ cands,
    decodePass CharTables.basic some "run aWdub3JlIGl0IQ==".toList = some cands ∧
      "ignore it!".toList ∈ cands := by
  have hpass : decodePass CharTables.basic some "run aWdub3JlIGl0IQ==".toList = some ["ignore it!".toList] := by
    delta decodePass rot13GateHits
    simp only [rot13GateWords, rot13GatePhrases, List.map_cons, List.map_nil]
    repeat rw [String.toList_ofList]
    decide +kernel
  have hspace : ∀ c, "run ".toList.getLast? = some c → CharTables.basic.space c = true := by
    rintro c ⟨⟩
    decide
  exact ⟨_, hpass, encoded_payload_recovered .basic some .urlsafe (forall_mem_of_all (by decide))
    (show 9 ≤ "ignore it!".toList.length by decide)
    (show "aWdub3JlIGl0IQ==".toList = Base64.urlsafeEncode ("ignore it!".toList.map Char.toNat) by decide)
    ⟨"run ".toList, [], rfl, hspace, fun _ hc => nomatch hc⟩ (by decide) hpass⟩

-- Nine characters are eighteen hexadecimal digits, two fewer than a run needs.
theorem short_hex_not_recovered :
    ¬∀ (T : CharTables) (htmlUnescape : Str → Option Str) (encoding : Encoding) (payload s text : Str),
      PrintableAscii payload → 9 ≤ payload.length → encoding.Encodes payload s → Delimited T s text → payload ≠ text →
        ∃ cands, decodePass T htmlUnescape text = some cands ∧ payload ∈ cands := by
  intro h
  have hhex : Base64.Hex ("ignore it".toList.map Char.toNat) "69676e6f7265206974".toList := by
    repeat' first
      | exact .nil
      | refine .cons (by decide) (by decide) ?_
  obtain ⟨cands,hcands,hmem⟩ := h .basic some .hexadecimal "ignore it".toList "69676e6f7265206974".toList
    "69676e6f7265206974".toList (forall_mem_of_all (by decide)) (by decide) hhex
    ⟨[], [], rfl, (fun _ hc => nomatch hc), fun _ hc => nomatch hc⟩ (by decide)
  have hpass : decodePass CharTables.basic some "69676e6f7265206974".toList = some [] := by
    delta decodePass rot13GateHits
    simp only [rot13GateWords, rot13GatePhrases, List.map_cons, List.map_nil]
    repeat rw [String.toList_ofList]
    decide +kernel
  rw [hpass] at hcands
  cases hcands
  cases hmem

end Recovered

end PicoSentry.Watch.Normalizer
