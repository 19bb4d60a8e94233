import MultiPartyTss.Gg18.ApiCommunity

/-!
# Signups over a channel that loses responses

`post` sends a request again when the body of its response does not decode, but the manager has already
done what the request asks. For a signup it then issues a second number. `signup_at_most_once_iff` says
when one call of `ApiCommunity::get_party_signup` consumes no number that it does not return: exactly when
the first response decodes, or the request is refused, or the room is full.
-/

namespace Gg18

open Json StoreCommunity

namespace ApiCommunity

variable [Serde Object] [Serde PartySignup]

/-- The room's number went up by at most one, and every number that the call consumed is the one it
returned. -/
structure AtMostOnce (num : Nat) (key : String) (hm : Store) (result : Option (Except Unit PartySignup))
    (hm' : Store) : Prop where
  advance : storedNumber hm' key ≤ storedNumber hm key + 1
  returned : ∀ k, 1 ≤ k → k ≤ num → storedNumber hm key < k → k ≤ storedNumber hm' key →
    ∃ p, result = some (.ok p) ∧ p.number = k

variable {limit num : Nat} {key : String} {fresh : Nat → String} {hm : Store}

/-! ### One attempt -/

omit [Serde PartySignup] in
theorem accepted_of_readJson {request : PartySignupReq}
    (h : readJson limit PartySignupReq.fromJson (Serde.toStr (PartySignupReq.toJson ⟨num, key⟩))
      = .ok request) : Accepted limit num key := by
  rcases readJson_cases limit PartySignupReq.fromJson (Serde.toStr (PartySignupReq.toJson ⟨num, key⟩)) with
    ⟨status, hread, -⟩ | ⟨o, request', hsize, hbody, hrequest, -⟩
  · rw [h] at hread
    cases hread
  · rw [Serde.round_trip, Option.some.injEq] at hbody
    rw [← hbody, PartySignupReq.fromJson_toJson] at hrequest
    split at hrequest
    · rename_i hreq
      exact ⟨hreq.1, hreq.2, hsize⟩
    · cases hrequest

theorem attempt_refused (fresh : Nat → String) (hm : Store) (hrefused : ¬ Accepted limit num key) (i : Nat) :
    (attempt limit num key fresh i hm).2 = hm := by
  unfold attempt Management.signupParty
  split
  · rfl
  · exact (hrefused (accepted_of_readJson ‹_›)).elim

/-! ### The retry loop -/

theorem postLoop_refused (fresh : Nat → String) (hm : Store) (hrefused : ¬ Accepted limit num key)
    (arrival : Nat → Arrival) (attempts : List Nat) :
    (postLoop (attempt limit num key fresh) arrival attempts hm).2 = hm := by
  induction attempts with
  | nil => rfl
  | cons i attempts ih =>
    unfold postLoop
    simp only [attempt_refused fresh hm hrefused]
    split
    · rfl
    · exact ih

/-- The stored number does not go down, it stops at `num`, and a number that the loop returns is above
those that were there. -/
theorem postLoop_signup (haccepted : Accepted limit num key) (hvalid : SignupValid hm key)
    (arrival : Nat → Arrival) (attempts : List Nat) {res_body : Option String} {hm' : Store}
    (h : postLoop (attempt limit num key fresh) arrival attempts hm = (res_body, hm')) :
    storedNumber hm key ≤ storedNumber hm' key ∧
      storedNumber hm' key ≤ max (storedNumber hm key) (max 1 num) ∧
      ∀ p, res_body.map (decode PartySignup.fromJson) = some (.ok p) → storedNumber hm key < p.number := by
  induction attempts generalizing hm with
  | nil =>
    cases h
    simp
  | cons i attempts ih =>
    rcases attempt_cases fresh haccepted hvalid i with ⟨p, hnext, hle, -, hattempt⟩ | ⟨hfull, -, hattempt⟩
    · have hstored : storedNumber (writePartySignup key p hm) key = storedNumber hm key + 1 := by
        rw [storedNumber_write, hnext]
      cases harrival : arrival i with
      | intact =>
        rw [postLoop_intact 200 harrival hattempt] at h
        cases h
        refine ⟨by omega, by omega, fun q hq => ?_⟩
        rw [Option.map_some, decode_rendered_signup haccepted hle] at hq
        cases hq
        omega
      | undecodable =>
        rw [postLoop_undecodable harrival, hattempt] at h
        obtain ⟨hlow, hhigh, hret⟩ := ih (write_valid hm key p) h
        refine ⟨by omega, by omega, fun q hq => ?_⟩
        have hq := hret q hq
        omega
    · cases harrival : arrival i with
      | intact =>
        rw [postLoop_intact 400 harrival hattempt] at h
        cases h
        refine ⟨le_rfl, le_max_left _ _, fun q hq => ?_⟩
        rw [Option.map_some, decode_rendered_error] at hq
        cases hq
      | undecodable =>
        rw [postLoop_undecodable harrival, hattempt] at h
        exact ih hvalid h

/-! ### One call -/

variable (limit num key fresh hm) in
/-- `AtMostOnce` for one call of `ApiCommunity::get_party_signup`. -/
def SignupOnce (arrival : Nat → Arrival) : Prop :=
  AtMostOnce num key hm (getPartySignup limit arrival num key fresh hm).1
    (getPartySignup limit arrival num key fresh hm).2

theorem signupOnce_of_refused (hrefused : ¬ Accepted limit num key) (arrival : Nat → Arrival) :
    SignupOnce limit num key fresh hm arrival := by
  rcases hpost : post (attempt limit num key fresh) arrival hm with ⟨res_body, hm'⟩
  have hkeep : hm' = hm := by
    have h := postLoop_refused fresh hm hrefused arrival (List.range' 1 (retries - 1))
    rw [← h]
    exact (congrArg Prod.snd hpost).symm
  rw [SignupOnce, getPartySignup_eq hpost, hkeep]
  exact ⟨by simp, fun k _ _ hlow hhigh => by simp at hhigh; omega⟩

theorem signupOnce_of_full (haccepted : Accepted limit num key) (hvalid : SignupValid hm key)
    (arrival : Nat → Arrival) (hfull : num ≤ storedNumber hm key) :
    SignupOnce limit num key fresh hm arrival := by
  rcases hpost : post (attempt limit num key fresh) arrival hm with ⟨res_body, hm'⟩
  obtain ⟨hlow, hhigh, -⟩ := postLoop_signup haccepted hvalid arrival _ hpost
  rw [SignupOnce, getPartySignup_eq hpost]
  exact ⟨by simp only; omega, fun k _ _ _ _ => by omega⟩

theorem signupOnce_of_intact (haccepted : Accepted limit num key) (hvalid : SignupValid hm key)
    {arrival : Nat → Arrival} (harrival : arrival 1 = .intact) :
    SignupOnce limit num key fresh hm arrival := by
  unfold SignupOnce
  rcases attempt_cases fresh haccepted hvalid 1 with ⟨p, hnext, hle, -, hattempt⟩ | ⟨hfull, -, hattempt⟩
  · rw [getPartySignup_eq (post_respond 200 harrival hattempt), Option.map_some,
      decode_rendered_signup haccepted hle]
    have hstored := storedNumber_write hm key p
    exact ⟨by simp only; omega, fun k _ _ hlow hhigh => ⟨p, rfl, by simp only at hhigh; omega⟩⟩
  · rw [getPartySignup_eq (post_respond 400 harrival hattempt)]
    exact ⟨by simp only; omega, fun k _ _ hlow hhigh => by simp only at hhigh; omega⟩

/-- After a lost first response the next number is gone: the attempts that follow return higher ones. -/
theorem not_signupOnce (haccepted : Accepted limit num key) (hvalid : SignupValid hm key)
    {arrival : Nat → Arrival} (harrival : arrival 1 = .undecodable) (hroom : storedNumber hm key < num) :
    ¬ SignupOnce limit num key fresh hm arrival := by
  intro honce
  rcases attempt_cases fresh haccepted hvalid 1 with ⟨p, hnext, hle, -, hattempt⟩ | ⟨hfull, -, hattempt⟩
  · rcases hpost : post (attempt limit num key fresh) arrival hm with ⟨res_body, hm'⟩
    have hrest : postLoop (attempt limit num key fresh) arrival (List.range' 2 (retries - 2))
        (writePartySignup key p hm) = (res_body, hm') := by
      rw [← hpost, post, show List.range' 1 (retries - 1) = 1 :: List.range' 2 (retries - 2) from rfl,
        postLoop_undecodable harrival, hattempt]
    obtain ⟨hlow, -, hreturned⟩ := postLoop_signup haccepted (write_valid hm key p) arrival _ hrest
    rw [storedNumber_write] at hlow hreturned
    rw [SignupOnce, getPartySignup_eq hpost] at honce
    obtain ⟨q, hq, hnumber⟩ := honce.returned p.number (by omega) (by omega) (by omega) hlow
    have hlater := hreturned q hq
    omega
  · omega

/-- One call consumes no number that it does not return exactly when the first response decodes, or the
room is full, or the manager refuses the request. -/
theorem signup_at_most_once_iff (hvalid : SignupValid hm key) (arrival : Nat → Arrival) :
    SignupOnce limit num key fresh hm arrival ↔
      arrival 1 = .intact ∨ num ≤ storedNumber hm key ∨ ¬ Accepted limit num key := by
  by_cases haccepted : Accepted limit num key
  · cases harrival : arrival 1 with
    | intact => simp [signupOnce_of_intact haccepted hvalid harrival]
    | undecodable =>
      by_cases hfull : num ≤ storedNumber hm key
      · simp [signupOnce_of_full haccepted hvalid arrival hfull, hfull]
      · simp [not_signupOnce haccepted hvalid harrival (Nat.not_le.mp hfull), hfull, haccepted]
  · simp [signupOnce_of_refused haccepted arrival, haccepted]

/-- The first response is lost, the others arrive. -/
def firstLost (i : Nat) : Arrival := if i = 1 then .undecodable else .intact

omit [Serde Object] [Serde PartySignup] in
/-- In an empty room for two, the caller is made party two and nobody is party one. -/
theorem first_response_lost :
    letI := Json.compact
    letI := PartySignup.compact
    ¬ SignupOnce 1048576 2 "67e55044-10b1-426f-9247-bb680e5fe0c8" (fun _ => "u") Store.empty firstLost := by
  let _ := Json.compact
  let _ := PartySignup.compact
  intro h
  have htwo : storedNumber (getPartySignup 1048576 firstLost 2 "67e55044-10b1-426f-9247-bb680e5fe0c8"
      (fun _ => "u") Store.empty).2 "67e55044-10b1-426f-9247-bb680e5fe0c8" = 2 := by
    decide +kernel
  have hone := h.advance
  rw [htwo] at hone
  revert hone
  decide

omit [Serde Object] [Serde PartySignup] in
/-- A room for three with one signup, and every response arrives. -/
theorem second_signup_once :
    letI := Json.compact
    letI := PartySignup.compact
    SignupOnce 1048576 3 "r" (fun _ => "v") (writePartySignup "r" ⟨1, "u"⟩ Store.empty) delivers := by
  let _ := Json.compact
  let _ := PartySignup.compact
  exact (signup_at_most_once_iff (write_valid Store.empty "r" ⟨1, "u"⟩) delivers).mpr (Or.inl rfl)

end ApiCommunity

end Gg18
