import Mathlib.Data.Nat.Digits.Defs
import Netknot.Http.Framing
import Netknot.Http.ReadCallback
import Netknot.Http.StagedWriter

/-!
# The Length of a Body

`Content-Length` is a text of decimal digits: `writeResponse` prints the length of a body into an
array whose size is computed from `sizeof(size_t)`, and the read callback reads the length of the
body that a request announces, digit by digit and with a guard before each multiplication and
each addition.

The number of a text is Mathlib's `Nat.ofDigits`.

## Main results

* `lengthFits_iff`: which lengths fit into the array.
* `contentLength_eq`: the loop over the digits computes the number, or rejects it.
* `contentLength_exact`: it does so without an intermediate result that wraps around.
* `contentLength_decimal`: a length that was printed is read back.
-/

namespace Netknot.Http

/-! ### Printing a length -/

namespace HttpURLHandlerState

/-- **How long a number is**: the digits do not exceed a width if and only if the number
does not. -/
theorem length_decimal_le_iff {n width : ℕ} (hwidth : 0 < width) :
    (decimal n).length ≤ width ↔ n < 10 ^ width := by
  constructor
  · intro hlength
    induction n using Nat.strong_induction_on generalizing width with
    | _ n ih =>
        rcases Nat.lt_or_ge n 10 with hlt | hge
        · calc n < 10 ^ 1 := hlt
            _ ≤ 10 ^ width := Nat.pow_le_pow_right (by omega) hwidth
        · have hsplit : (decimal n).length = (decimal (n / 10)).length + 1 := by
            rw [decimal_of_ge hge, List.length_append,
              decimal_of_lt (Nat.mod_lt n (by omega)), List.length_singleton]
          have hpos : 0 < (decimal (n / 10)).length :=
            List.length_pos_of_ne_nil (decimal_ne_nil _)
          obtain ⟨w, rfl⟩ : ∃ w, width = w + 1 := ⟨width - 1, by omega⟩
          have hfront : n / 10 < 10 ^ w := ih (n / 10) (by omega) (by omega) (by omega)
          rw [pow_succ]
          omega
  · intro hlt
    rw [decimal, List.length_map]
    exact Nat.toDigits_length 10 n width hwidth hlt

/-- **The text of a length fits its array**: `sprintf("%zu")` writes its terminating zero inside
`lenStr`, and a response without an exception holds the decimal form of the length. -/
def LengthFits (sizeofSizeT n : ℕ) : Prop :=
  (decimal n).length + 1 ≤ sizeofSizeT / 3 + 1 ∧
    ∀ (state : HttpURLHandlerState) (oom : ℕ → Bool) (status : HttpResponseStatus)
      (contentType body : Bytes), body.length = n →
        state.writeResponse sizeofSizeT oom status contentType body ≠ .error .bufferOverflow ∧
        ∀ state', state.writeResponse sizeofSizeT oom status contentType body = .ok (none, state') →
          state'.responseData = responseText status contentType body

/-- A failure is passed on, so only the next call can end the process. -/
theorem next_ne_error {reason : Terminate}
    {x : Except Terminate (ExceptionPointer × HttpURLHandlerState)}
    {f : ExceptionPointer × HttpURLHandlerState →
      Except Terminate (ExceptionPointer × HttpURLHandlerState)}
    (hx : x ≠ .error reason) (hf : ∀ e s, f (some e, s) = .ok (some e, s))
    (hnext : ∀ s, f (none, s) ≠ .error reason) : (x >>= f) ≠ .error reason := by
  refine bind_ne_error hx fun a _ => ?_
  rcases a with ⟨_ | e, state⟩
  · exact hnext state
  · rw [hf]
    exact nofun

/-- **What can end the process** in `writeResponse`: the stage, and a length that does not fit. -/
theorem writeResponse_ne_error {sizeofSizeT : ℕ} {state : HttpURLHandlerState} {oom : ℕ → Bool}
    {status : HttpResponseStatus} {contentType body : Bytes} {reason : Terminate}
    (hstage : reason ≠ .stage)
    (hroom : reason = .bufferOverflow → (decimal body.length).length ≤ sizeofSizeT / 3) :
    state.writeResponse sizeofSizeT oom status contentType body ≠ .error reason := by
  have hcall (call : WriterCall) (state : HttpURLHandlerState) (oom : ℕ → Bool) :
      call.perform state oom ≠ .error reason := call.perform_ne_error state oom hstage
  refine next_ne_error (hcall (.writeStatusLine status) _ _) (fun _ _ => rfl) fun _ => ?_
  refine next_ne_error (hcall (.writeHeader _ contentType) _ _) (fun _ _ => rfl) fun _ => ?_
  simp only [Option.isSome_none, Bool.false_eq_true, if_false]
  split
  · rename_i hlong
    intro hoverflow
    have hfits := hroom (Except.error.inj hoverflow).symm
    omega
  · refine next_ne_error (hcall (.writeHeader _ _) _ _) (fun _ _ => rfl) fun _ => ?_
    refine next_ne_error (hcall .endHeader _ _) (fun _ _ => rfl) fun _ => ?_
    refine next_ne_error (hcall (.writeBody body) _ _) (fun _ _ => rfl) fun _ => ?_
    exact nofun

/-- **A length that does not fit** is written behind the end of the array, if memory suffices
so far. -/
theorem writeResponse_bufferOverflow {sizeofSizeT : ℕ} {state : HttpURLHandlerState}
    {oom : ℕ → Bool} (status : HttpResponseStatus) (contentType : Bytes) {body : Bytes}
    (hstage : state.stage = .statusLine) (hoom : ∀ i < 7, oom i = false)
    (hlong : sizeofSizeT / 3 < (decimal body.length).length) :
    state.writeResponse sizeofSizeT oom status contentType body = .error .bufferOverflow := by
  simp [writeResponse, writeStatusLine, writeHeader, write, appendAll, hstage, hoom, hlong, bind,
    Except.bind, throw, throwThe, MonadExceptOf.throw]

/-- **Which lengths fit**: those with no more digits than the formula `sizeof(size_t)
/ 3` allows. -/
theorem lengthFits_iff (env : Env) (n : ℕ) :
    LengthFits env.sizeofSizeT n ↔ n < 10 ^ (env.sizeofSizeT / 3) := by
  have hsize : 4 ≤ env.sizeofSizeT := env.sizeofSizeT_ge
  have hwidth : 0 < env.sizeofSizeT / 3 := by omega
  rw [← length_decimal_le_iff hwidth]
  constructor
  · rintro ⟨hlength, -⟩
    exact Nat.le_of_succ_le_succ hlength
  · intro hlength
    refine ⟨Nat.succ_le_succ hlength, fun state oom status contentType body hbody => ?_⟩
    subst hbody
    exact ⟨writeResponse_ne_error Terminate.noConfusion fun _ => hlength, fun state' h =>
      responseData_of_writeResponse h⟩

/-- **The length of a body of a hundred bytes** does not fit where `size_t` has eight bytes, nor
that of a body of ten bytes where it has four. -/
theorem not_lengthFits_hundred :
    (100 < 256 ^ 8 ∧ ¬LengthFits 8 100 ∧
      blankState.writeResponse 8 (fun _ => false) .ok [] (List.replicate 100 0) =
        .error .bufferOverflow) ∧
    10 < 256 ^ 4 ∧ ¬LengthFits 4 10 ∧
      blankState.writeResponse 4 (fun _ => false) .ok [] (List.replicate 10 0) =
        .error .bufferOverflow := by
  have hhundred : (decimal (List.replicate 100 (0 : UInt8)).length).length = 3 := by decide
  have hten : (decimal (List.replicate 10 (0 : UInt8)).length).length = 2 := by decide
  refine ⟨⟨by decide, fun h => absurd h.1 (by decide), ?_⟩, by decide,
    fun h => absurd h.1 (by decide), ?_⟩
  · exact writeResponse_bufferOverflow _ _ rfl (fun _ _ => rfl) (by rw [hhundred]; decide)
  · exact writeResponse_bufferOverflow _ _ rfl (fun _ _ => rfl) (by rw [hten]; decide)

end HttpURLHandlerState

/-! ### Reading a length -/

/-- A character of a number. -/
abbrev IsDigit (c : UInt8) : Prop := 48 ≤ c ∧ c ≤ 57

/-- A digit adds nine to a number at most. -/
theorem sub_le_nine_of_le {c : UInt8} (h : c ≤ 57) : c.toNat - 48 ≤ 9 := by
  have hle : c.toNat ≤ 57 := UInt8.le_iff_toNat_le.mp h
  omega

/-- A text of digits. -/
def AllDigits (v : Bytes) : Prop := ∀ c ∈ v, IsDigit c

instance (v : Bytes) : Decidable (AllDigits v) := List.decidableBAll IsDigit v

/-- The number of a text of digits. -/
def decimalValue (v : Bytes) : ℕ := Nat.ofDigits 10 (v.map fun c => c.toNat - 48).reverse

/-- One more digit multiplies the number by ten and adds its value. -/
theorem decimalValue_concat (v : Bytes) (c : UInt8) :
    decimalValue (v ++ [c]) = decimalValue v * 10 + (c.toNat - 48) := by
  rw [decimalValue, List.map_append, List.reverse_append, List.map_singleton,
    List.reverse_singleton, List.singleton_append, Nat.ofDigits_cons, ← decimalValue]
  omega

/-- More digits do not make a number smaller. -/
theorem decimalValue_le_append (u v : Bytes) : decimalValue u ≤ decimalValue (u ++ v) := by
  induction v generalizing u with
  | nil => rw [List.append_nil]
  | cons c v ih =>
      calc decimalValue u ≤ decimalValue (u ++ [c]) := by
            rw [decimalValue_concat]
            omega
        _ ≤ decimalValue (u ++ [c] ++ v) := ih (u ++ [c])
        _ = decimalValue (u ++ c :: v) := by rw [List.append_assoc, List.singleton_append]

/-- A number that was printed is that number. -/
theorem decimalValue_decimal (n : ℕ) : decimalValue (HttpURLHandlerState.decimal n) = n := by
  have hdigit (n : ℕ) (h : n < 10) : n.digitChar.toNat.toUInt8.toNat - 48 = n := by
    revert n
    decide
  induction n using Nat.strong_induction_on with
  | _ n ih =>
      rcases Nat.lt_or_ge n 10 with hlt | hge
      · rw [decimal_of_lt hlt, ← List.nil_append [_], decimalValue_concat,
          hdigit n hlt, decimalValue]
        simp
      · have hmod : n % 10 < 10 := Nat.mod_lt n (by omega)
        rw [decimal_of_ge hge, decimal_of_lt hmod,
          decimalValue_concat, ih (n / 10) (by omega), hdigit _ hmod]
        omega

namespace HttpReadAsyncCallback

/-- The loop over the digits of `Content-Length`, with the exact results of its multiplications
and additions, in the order in which they are computed. -/
def contentLengthResults (sizeMax : ℕ) : ℕ → Bytes → Option ℕ × List ℕ
  | value, [] => (some value, [])
  | value, i :: rest =>
      if i < 48 ∨ 57 < i then (none, [])
      else if sizeMax / 10 < value then (none, [])
      else
        let product := value * 10
        let value := product % (sizeMax + 1)
        let curDigit := i.toNat - 48
        if sizeMax - curDigit < value then (none, [product])
        else
          let sum := value + curDigit
          let (result, results) := contentLengthResults sizeMax (sum % (sizeMax + 1)) rest
          (result, product :: sum :: results)

/-- Recording the results changes nothing. -/
theorem fst_contentLengthResults (sizeMax value : ℕ) (v : Bytes) :
    (contentLengthResults sizeMax value v).1 = contentLength sizeMax value v := by
  induction v generalizing value with
  | nil => rfl
  | cons i rest ih =>
      rw [contentLengthResults, contentLength]
      split
      · rfl
      split
      · rfl
      dsimp only
      split
      · rfl
      · exact ih _

variable {sizeMax : ℕ}

/-- **No result wraps around**: the guards hold back what would. -/
theorem le_of_mem_contentLengthResults (hmax : 9 ≤ sizeMax) {value : ℕ} {v : Bytes} {x : ℕ}
    (h : x ∈ (contentLengthResults sizeMax value v).2) : x ≤ sizeMax := by
  induction v generalizing value with
  | nil => cases h
  | cons i rest ih =>
      rw [contentLengthResults] at h
      split at h
      · cases h
      rename_i hdigit
      have hcur : i.toNat - 48 ≤ 9 :=
        sub_le_nine_of_le (UInt8.not_lt.mp fun hi => hdigit (.inr hi))
      split at h
      · cases h
      have hproduct : value * 10 ≤ sizeMax := by omega
      dsimp only at h
      split at h
      · obtain rfl := List.mem_singleton.mp h
        exact hproduct
      · rename_i hguard
        rcases List.mem_cons.mp h with rfl | h
        · exact hproduct
        rcases List.mem_cons.mp h with rfl | h
        · omega
        · exact ih h

/-- **One turn of the loop**: a digit is added unless the number becomes too large. -/
theorem contentLength_cons (hmax : 9 ≤ sizeMax) (value : ℕ) (i : UInt8) (rest : Bytes) :
    contentLength sizeMax value (i :: rest) =
      if IsDigit i ∧ value * 10 + (i.toNat - 48) ≤ sizeMax then
        contentLength sizeMax (value * 10 + (i.toNat - 48)) rest
      else none := by
  rw [contentLength]
  by_cases hdigit : IsDigit i
  · have hlow : ¬i < 48 := UInt8.not_lt.mpr hdigit.1
    have hhigh : ¬57 < i := UInt8.not_lt.mpr hdigit.2
    have hcur : i.toNat - 48 ≤ 9 := sub_le_nine_of_le hdigit.2
    rw [if_neg (not_or.mpr ⟨hlow, hhigh⟩)]
    by_cases hproduct : sizeMax / 10 < value
    · rw [if_pos hproduct, if_neg (by omega)]
    · have hmod : value * 10 % (sizeMax + 1) = value * 10 := Nat.mod_eq_of_lt (by omega)
      rw [if_neg hproduct, hmod]
      dsimp only
      by_cases hsum : sizeMax - (i.toNat - 48) < value * 10
      · rw [if_pos hsum, if_neg (by omega)]
      · have hsum' : value * 10 + (i.toNat - 48) ≤ sizeMax := by omega
        rw [if_neg hsum, if_pos ⟨hdigit, hsum'⟩, Nat.mod_eq_of_lt (by omega)]
  · have hother : i < 48 ∨ 57 < i := by
      by_contra hnot
      exact hdigit ⟨UInt8.not_lt.mp fun h => hnot (.inl h), UInt8.not_lt.mp fun h => hnot (.inr h)⟩
    rw [if_pos hother, if_neg fun h => hdigit h.1]

/-- **The loop computes the number** of its text, behind the digits it has read, and rejects it if
it is too large or no number. -/
theorem contentLength_eq (hmax : 9 ≤ sizeMax) (u v : Bytes) :
    decimalValue u ≤ sizeMax →
    contentLength sizeMax (decimalValue u) v =
      if AllDigits v ∧ decimalValue (u ++ v) ≤ sizeMax then some (decimalValue (u ++ v))
      else none := by
  induction v generalizing u with
  | nil =>
      intro hu
      rw [List.append_nil, if_pos ⟨fun _ hc => absurd hc List.not_mem_nil, hu⟩, contentLength]
  | cons i rest ih =>
      intro hu
      have happend : u ++ [i] ++ rest = u ++ i :: rest := by
        rw [List.append_assoc, List.singleton_append]
      rw [contentLength_cons hmax, ← decimalValue_concat]
      by_cases hstep : IsDigit i ∧ decimalValue (u ++ [i]) ≤ sizeMax
      · have hdigits : AllDigits (i :: rest) ↔ AllDigits rest :=
          List.forall_mem_cons.trans (and_iff_right hstep.1)
        rw [if_pos hstep, ih _ hstep.2, happend]
        simp only [hdigits]
      · rw [if_neg hstep, if_neg]
        rintro ⟨hdigits, hle⟩
        refine hstep ⟨hdigits i List.mem_cons_self, ?_⟩
        calc decimalValue (u ++ [i]) ≤ decimalValue (u ++ [i] ++ rest) :=
              decimalValue_le_append _ _
          _ = decimalValue (u ++ i :: rest) := by rw [happend]
          _ ≤ sizeMax := hle

/-- `SIZE_MAX` has at least one digit. -/
theorem nine_le_sizeMax (env : Env) : 9 ≤ env.sizeMax := by
  have hpow : 256 ^ 1 ≤ 256 ^ env.sizeofSizeT :=
    Nat.pow_le_pow_right (by omega) (by have := env.sizeofSizeT_ge; omega)
  rw [Env.sizeMax]
  omega

/-- The loop accepts a text of digits whose number is a `size_t`, and gives that number. -/
theorem contentLength_zero (env : Env) (v : Bytes) :
    contentLength env.sizeMax 0 v =
      if AllDigits v ∧ decimalValue v ≤ env.sizeMax then some (decimalValue v) else none :=
  contentLength_eq (nine_le_sizeMax env) [] v (Nat.zero_le _)

/-- **`Content-Length` is parsed exactly**: the loop ends the process if and only if its text
holds another character than a digit or its number exceeds `SIZE_MAX`, and no multiplication and
no addition on the way wraps around. Otherwise the body gets the size of that number, if there is
memory for it, and so many bytes are expected. -/
theorem contentLength_exact (env : Env) (v : Bytes) :
    (contentLength env.sizeMax 0 v = none ↔
      (∃ c ∈ v, ¬IsDigit c) ∨ env.sizeMax < decimalValue v) ∧
    (contentLength env.sizeMax 0 v ≠ none →
      contentLength env.sizeMax 0 v = some (decimalValue v)) ∧
    (contentLengthResults env.sizeMax 0 v).1 = contentLength env.sizeMax 0 v ∧
    (∀ x ∈ (contentLengthResults env.sizeMax 0 v).2, x ≤ env.sizeMax) ∧
    ∀ (reader : HttpReadAsyncCallback) (ch : Choices),
      reader.requestHeaderView.find (text "Content-Length") = some v →
        if (∃ c ∈ v, ¬IsDigit c) ∨ env.sizeMax < decimalValue v then
          reader.onContentLength env ch = .error .contentLength
        else if ch.oom .body then
          reader.onContentLength env ch = .ok (reader.fails .outOfMemory)
        else ∃ body, body.length = decimalValue v ∧ reader.onContentLength env ch =
          { reader with body := body, expectedBodySize := decimalValue v }.awaitBody env ch := by
  have hiff : contentLength env.sizeMax 0 v = none ↔
      (∃ c ∈ v, ¬IsDigit c) ∨ env.sizeMax < decimalValue v := by
    rw [contentLength_zero]
    split
    · rename_i haccepted
      refine iff_of_false (Option.some_ne_none _) ?_
      rintro (⟨c, hc, hother⟩ | hlarge)
      · exact hother (haccepted.1 c hc)
      · omega
    · rename_i hrejected
      refine iff_of_true rfl ?_
      by_contra hnot
      obtain ⟨hdigits, hle⟩ := not_or.mp hnot
      refine hrejected ⟨fun c hc => ?_, Nat.not_lt.mp hle⟩
      by_contra hother
      exact hdigits ⟨c, hc, hother⟩
  have hsome (hne : contentLength env.sizeMax 0 v ≠ none) :
      contentLength env.sizeMax 0 v = some (decimalValue v) := by
    rw [contentLength_zero] at hne ⊢
    by_cases haccepted : AllDigits v ∧ decimalValue v ≤ env.sizeMax
    · rw [if_pos haccepted]
    · exact absurd (if_neg haccepted) hne
  refine ⟨hiff, hsome, fst_contentLengthResults _ _ _,
    fun x => le_of_mem_contentLengthResults (nine_le_sizeMax env), fun reader ch hfind => ?_⟩
  rw [onContentLength, hfind]
  split
  · rename_i hrejected
    dsimp only
    rw [hiff.mpr hrejected]
    rfl
  · rename_i haccepted
    dsimp only
    rw [hsome (mt hiff.mp haccepted)]
    dsimp only
    split
    · rfl
    · refine ⟨_, ?_, rfl⟩
      rw [List.length_append, List.length_take, List.length_replicate]
      omega

/-- The loop accepts the largest number there is, and rejects the next one. -/
theorem contentLength_exact_boundary :
    contentLength Env.bare.sizeMax 0 (text "18446744073709551615") =
        some (decimalValue (text "18446744073709551615")) ∧
      contentLength Env.bare.sizeMax 0 (text "18446744073709551616") = none :=
  ⟨(contentLength_exact Env.bare _).2.1 (by decide),
    (contentLength_exact Env.bare _).1.mpr (.inr (by decide))⟩

/-- **A length that was printed is read back.** -/
theorem contentLength_decimal (env : Env) {n : ℕ} (hn : n ≤ env.sizeMax) :
    contentLength env.sizeMax 0 (HttpURLHandlerState.decimal n) = some n := by
  rw [contentLength_zero, decimalValue_decimal,
    if_pos ⟨fun c hc => digit_of_mem_decimal hc, hn⟩]

end HttpReadAsyncCallback

end Netknot.Http
