import MultiPartyTss.Lib.Network

/-!
# Requests that are sent again

The parties of `Lib.Network` as clients of a server that keeps the store. Sending a request, what the server
does with it, and the arrival of the response are steps of their own. Where the body of a response cannot be
read the client sends the request again, a number of times; then it panics, as it does when the connection
breaks. So the server may do what a request asks for more than once, and also where the client knows nothing
of it.

If the server keeps to the requests (`Api.Lawful`) and no entry is written twice, the clients are parties that
use the store themselves (`exec_remote_refines`): what a client does again changes nothing, and what it has
read is still there when it comes to know of it. Clients whose requests are taken (`Api.Answers`) can do
whatever such parties can (`exec_ofNet`).
-/

namespace Network

open Proc

variable {P K V ω α Req Res : Type}

/-- How clients and the server talk about entries. -/
structure Api (K V Req Res : Type) where
  setRequest : K → V → Req
  getRequest : K → Req
  serve : Req → (K → Option V) → Res × (K → Option V)
  /-- What the client reads: nothing, or the value of an entry, or a refusal. -/
  read : Res → Option (Option V)
  /-- How many times a request is sent. -/
  attempts : Nat

namespace Api

/-- The request of a process for its next step. -/
def request (api : Api K V Req Res) : Proc K V ω α → Option Req
  | .put k v _ => some (api.setRequest k v)
  | .poll k _ => some (api.getRequest k)
  | _ => none

/-- The process after the answer. A client that may not write panics, and one that finds no entry asks again. -/
def resume (answer : Option V) : Proc K V ω α → Proc K V ω α
  | .put _ _ next =>
    match answer with
    | some _ => next
    | none => .fail
  | .poll k next =>
    match answer with
    | some v => next v
    | none => .poll k next
  | x => x

/-- The server does what the requests ask for, and says nothing else. -/
structure Lawful [DecidableEq K] (api : Api K V Req Res) : Prop where
  set : ∀ k v store, (api.serve (api.setRequest k v) store).2 = Function.update store k (some v) ∨
    (api.serve (api.setRequest k v) store).2 = store ∧
      ∀ w, api.read (api.serve (api.setRequest k v) store).1 ≠ some (some w)
  get : ∀ k store, (api.serve (api.getRequest k) store).2 = store ∧
    ∀ v, api.read (api.serve (api.getRequest k) store).1 = some (some v) → store k = some v

/-- The server takes the requests about this entry, and answers them. -/
structure Answers [DecidableEq K] (api : Api K V Req Res) (k : K) (v : V) : Prop where
  set : ∀ store, (api.serve (api.setRequest k v) store).2 = Function.update store k (some v) ∧
    ∃ w, api.read (api.serve (api.setRequest k v) store).1 = some (some w)
  get : ∀ store, store k = some v → (api.serve (api.getRequest k) store).2 = store ∧
    api.read (api.serve (api.getRequest k) store).1 = some (some v)

end Api

/-- Where the request of a client is. -/
inductive Flight (Res : Type) : Type where
  | idle
  | sent
  | answered (response : Res)

structure Client (K V ω α Res : Type) where
  rest : Proc K V ω α
  /-- How many times the present request was sent. -/
  tries : Nat
  flight : Flight Res
  live : Bool

structure Remote (P K V ω α Res : Type) where
  store : K → Option V
  client : P → Option (Client K V ω α Res)

namespace Remote

inductive Action (P : Type) : Type where
  | note (p : P)
  | send (p : P)
  | serve (p : P)
  /-- The response arrives, in a state to be read or not. -/
  | receive (p : P) (intact : Bool)
  /-- The connection breaks, or the client is given up. -/
  | drop (p : P)

/-- The clients start with these processes over an empty store. -/
def start (init : P → Option (Proc K V ω α)) : Remote P K V ω α Res :=
  ⟨fun _ => none, fun p => (init p).map fun x => ⟨x, 0, .idle, true⟩⟩

/-- What `p` returned, if it has. -/
def output (remote : Remote P K V ω α Res) (p : P) : Option α :=
  (remote.client p).bind fun c => if c.live then c.rest.result else none

section Steps

variable [DecidableEq P]

def setClient (remote : Remote P K V ω α Res) (p : P) (c : Client K V ω α Res) : Remote P K V ω α Res :=
  { remote with client := Function.update remote.client p (some c) }

variable (api : Api K V Req Res)

def step (remote : Remote P K V ω α Res) : Action P → Option (Remote P K V ω α Res)
  | .note p =>
    match remote.client p with
    | some ⟨.note _ next, tries, .idle, true⟩ => some (remote.setClient p ⟨next, tries, .idle, true⟩)
    | _ => none
  | .send p =>
    match remote.client p with
    | some ⟨rest, tries, .idle, true⟩ =>
      if (api.request rest).isSome then some (remote.setClient p ⟨rest, tries + 1, .sent, true⟩) else none
    | _ => none
  | .serve p =>
    match remote.client p with
    | some ⟨rest, tries, .sent, live⟩ =>
      (api.request rest).map fun request =>
        { remote.setClient p ⟨rest, tries, .answered (api.serve request remote.store).1, live⟩ with
          store := (api.serve request remote.store).2 }
    | _ => none
  | .receive p intact =>
    match remote.client p with
    | some ⟨rest, tries, .answered response, true⟩ =>
      match if intact then api.read response else none with
      | some answer => some (remote.setClient p ⟨Api.resume answer rest, 0, .idle, true⟩)
      | none =>
        if tries < api.attempts then some (remote.setClient p ⟨rest, tries, .idle, true⟩)
        else some (remote.setClient p ⟨.fail, tries, .idle, true⟩)
    | _ => none
  | .drop p =>
    match remote.client p with
    | some ⟨rest, tries, flight, true⟩ => some (remote.setClient p ⟨rest, tries, flight, false⟩)
    | _ => none

/-- What a step of `p` can do. -/
inductive Stepped (remote : Remote P K V ω α Res) : Remote P K V ω α Res → Prop where
  | note {p o next tries tries' live} : remote.client p = some ⟨.note o next, tries, .idle, live⟩ →
      Stepped remote (remote.setClient p ⟨next, tries', .idle, live⟩)
  /-- The client waits, or tries again. -/
  | quiet {p rest tries tries' flight flight' live live'} : remote.client p = some ⟨rest, tries, flight, live⟩ →
      flight' = flight ∨ flight' = .idle ∨ flight' = .sent →
      Stepped remote (remote.setClient p ⟨rest, tries', flight', live'⟩)
  | served {p rest tries live request} : remote.client p = some ⟨rest, tries, .sent, live⟩ →
      api.request rest = some request →
      Stepped remote { remote.setClient p ⟨rest, tries, .answered (api.serve request remote.store).1, live⟩ with
        store := (api.serve request remote.store).2 }
  | received {p rest tries response answer} : remote.client p = some ⟨rest, tries, .answered response, true⟩ →
      api.read response = some answer →
      Stepped remote (remote.setClient p ⟨Api.resume answer rest, 0, .idle, true⟩)
  | panicked {p rest tries response} : remote.client p = some ⟨rest, tries, .answered response, true⟩ →
      Stepped remote (remote.setClient p ⟨.fail, tries, .idle, true⟩)

variable {api}

theorem stepped_of_step {remote remote' : Remote P K V ω α Res} {a : Action P}
    (h : remote.step api a = some remote') : Stepped api remote remote' := by
  cases a with
  | note p =>
    simp only [step] at h
    split at h
    · rename_i hp
      cases h
      exact .note hp
    · cases h
  | send p =>
    simp only [step] at h
    split at h
    · rename_i hp
      split_ifs at h
      cases h
      exact .quiet hp (Or.inr (Or.inr rfl))
    · cases h
  | serve p =>
    simp only [step] at h
    split at h
    · rename_i hp
      obtain ⟨request, hrequest, rfl⟩ := Option.map_eq_some_iff.mp h
      exact .served hp hrequest
    · cases h
  | receive p intact =>
    simp only [step] at h
    split at h
    · rename_i hp
      split at h
      · rename_i hread
        cases h
        split_ifs at hread
        exact .received hp hread
      · split_ifs at h
        · cases h
          exact .quiet hp (Or.inr (Or.inl rfl))
        · cases h
          exact .panicked hp
    · cases h
  | drop p =>
    simp only [step] at h
    split at h
    · rename_i hp
      cases h
      exact .quiet hp (Or.inl rfl)
    · cases h

theorem setClient_self (remote : Remote P K V ω α Res) (p : P) (c : Client K V ω α Res) :
    (remote.setClient p c).client p = some c := Function.update_self p _ remote.client

theorem setClient_of_ne (remote : Remote P K V ω α Res) {p q : P} (c : Client K V ω α Res) (h : q ≠ p) :
    (remote.setClient p c).client q = remote.client q := Function.update_of_ne h _ remote.client

end Steps

/-! ### Clients and parties -/

section Refinement

/-- Where a party is for its client. The client has panicked; or both are to do the same, and what the server
has answered is in the store; or the server has written what the client asks for, and the party goes on. -/
inductive Keeps (api : Api K V Req Res) (store : K → Option V) (c : Client K V ω α Res) (party : Party K V ω α) :
    Prop where
  | panicked : c.rest = .fail → Keeps api store c party
  | level : party.cur = c.rest →
      (∀ response v, c.flight = .answered response → api.read response = some (some v) →
        ∃ k next, c.rest = .poll k next ∧ store k = some v) → Keeps api store c party
  | ahead {k v next} : c.rest = .put k v next → party.cur = next → (k, v) ∈ party.wrote → Keeps api store c party

variable {api : Api K V Req Res} {reserved : K → Bool} {plan : P → List (Op K)}

theorem Keeps.mono {store store' : K → Option V} {c : Client K V ω α Res} {party : Party K V ω α}
    (h : Keeps api store c party) (hgrow : ∀ k v, store k = some v → store' k = some v) :
    Keeps api store' c party := by
  cases h with
  | panicked hfail => exact .panicked hfail
  | level hcur hanswer =>
    refine .level hcur fun response v hflight hread => ?_
    obtain ⟨k, next, hrest, hk⟩ := hanswer response v hflight hread
    exact ⟨k, next, hrest, hgrow k v hk⟩
  | ahead hrest hcur hwrote => exact .ahead hrest hcur hwrote

/-- A response that is no longer there, or was not there. -/
theorem Keeps.quiet {store : K → Option V} {rest : Proc K V ω α} {tries tries' : Nat} {flight flight' : Flight Res}
    {live live' : Bool} {party : Party K V ω α} (h : Keeps api store ⟨rest, tries, flight, live⟩ party)
    (hflight : flight' = flight ∨ flight' = .idle ∨ flight' = .sent) :
    Keeps api store ⟨rest, tries', flight', live'⟩ party := by
  cases h with
  | panicked hfail => exact .panicked hfail
  | level hcur hanswer =>
    refine .level hcur fun response v heq hread => ?_
    obtain rfl | rfl | rfl := hflight
    · exact hanswer response v heq hread
    · cases heq
    · cases heq
  | ahead hrest hcur hwrote => exact .ahead hrest hcur hwrote

theorem Keeps.idle {store : K → Option V} {rest : Proc K V ω α} {tries : Nat} {live : Bool} {party : Party K V ω α}
    (hcur : party.cur = rest) : Keeps api store ⟨rest, tries, .idle, live⟩ party := .level hcur nofun

/-- The parties are where the clients have come to. -/
structure Matches (api : Api K V Req Res) (reserved : K → Bool) (plan : P → List (Op K))
    (remote : Remote P K V ω α Res) (net : Net P K V ω α) : Prop where
  consistent : Consistent reserved plan net
  store_eq : net.store = remote.store
  keeps : ∀ p c, remote.client p = some c → ∃ party, net.party p = some party ∧ Keeps api remote.store c party

theorem start_matches {init : P → Option (Proc K V ω α)}
    (hfollows : ∀ p x, init p = some x → x.Follows (plan p)) :
    Matches api reserved plan (start init) (Net.start init) := by
  refine ⟨start_consistent hfollows, rfl, fun p c hp => ?_⟩
  obtain ⟨x, hx, rfl⟩ := Option.map_eq_some_iff.mp hp
  refine ⟨⟨x, x, [], []⟩, by simp [Net.start, hx], .level rfl fun response v hflight => ?_⟩
  cases hflight

variable [DecidableEq P] {remote : Remote P K V ω α Res} {net : Net P K V ω α}

/-- A step of a client that its party does not take. -/
theorem Matches.stutter {p : P} {c : Client K V ω α Res} {party : Party K V ω α}
    (h : Matches api reserved plan remote net) (hp : net.party p = some party)
    (hkeeps : Keeps api remote.store c party) : Matches api reserved plan (remote.setClient p c) net := by
  refine ⟨h.consistent, h.store_eq, fun q c' hq => ?_⟩
  by_cases heq : q = p
  · subst heq
    rw [setClient_self, Option.some.injEq] at hq
    subst hq
    exact ⟨party, hp, hkeeps⟩
  · rw [setClient_of_ne _ _ heq] at hq
    exact h.keeps q c' hq

variable [DecidableEq K]

/-- A step of a client that is a step of its party. -/
theorem Matches.moved {net' : Net P K V ω α} {p : P} {c : Client K V ω α Res} {store : K → Option V}
    {party : Party K V ω α} (hplan : Disciplined reserved plan) (h : Matches api reserved plan remote net)
    (hmove : net.move p = some net') (hstore : net'.store = store) (hp : net'.party p = some party)
    (hothers : ∀ q, q ≠ p → net'.party q = net.party q)
    (hgrow : ∀ k v, remote.store k = some v → store k = some v) (hkeeps : Keeps api store c party) :
    Matches api reserved plan { remote.setClient p c with store := store } net' := by
  refine ⟨move_consistent hplan h.consistent hmove, hstore, fun q c' hq => ?_⟩
  change (remote.setClient p c).client q = some c' at hq
  by_cases heq : q = p
  · subst heq
    rw [setClient_self, Option.some.injEq] at hq
    subst hq
    exact ⟨party, hp, hkeeps⟩
  · rw [setClient_of_ne _ _ heq] at hq
    obtain ⟨party', hp', hkeeps'⟩ := h.keeps q c' hq
    exact ⟨party', (hothers q heq).trans hp', hkeeps'.mono hgrow⟩

/-- The server writes what the client asks for. -/
theorem Matches.written {p : P} {c : Client K V ω α Res} {party : Party K V ω α} {k : K} {v : V}
    {next : Proc K V ω α} (hplan : Disciplined reserved plan) (h : Matches api reserved plan remote net)
    (hp : net.party p = some party) (hcur : party.cur = .put k v next) (hrest : c.rest = .put k v next) :
    ∃ net', net.move p = some net' ∧ Matches api reserved plan
      { remote.setClient p c with store := Function.update remote.store k (some v) } net' := by
  have hfresh := (h.consistent.fresh hplan hp hcur).2
  have hgrow : ∀ k' v', remote.store k' = some v' → Function.update remote.store k (some v) k' = some v' := by
    intro k' v' hk'
    refine (Function.update_of_ne ?_ _ _).trans hk'
    rintro rfl
    rw [← h.store_eq, hfresh] at hk'
    cases hk'
  have hmove : net.move p = some { net.setParty p { party with cur := next, wrote := party.wrote ++ [(k, v)] } with
      store := Function.update net.store k (some v) } := by
    simp only [Net.move, hp, hcur]
  refine ⟨_, hmove, h.moved hplan hmove ?_ (setParty_self net p _) (fun q hq => setParty_of_ne net _ hq) hgrow
    (.ahead hrest rfl (List.mem_append_right _ (List.mem_singleton_self _)))⟩
  rw [← h.store_eq]

/-- The client learns of an entry that is there. -/
theorem Matches.learned {p : P} {tries : Nat} {party : Party K V ω α} {k : K} {v : V} {next : V → Proc K V ω α}
    (hplan : Disciplined reserved plan) (h : Matches api reserved plan remote net) (hp : net.party p = some party)
    (hcur : party.cur = .poll k next) (hk : remote.store k = some v) :
    ∃ net', net.move p = some net' ∧
      Matches api reserved plan (remote.setClient p ⟨next v, tries, .idle, true⟩) net' := by
  have hmove : net.move p = some (net.setParty p { party with cur := next v }) := by
    simp only [Net.move, hp, hcur, h.store_eq, hk]
  exact ⟨_, hmove, h.moved hplan hmove h.store_eq (setParty_self net p _) (fun q hq => setParty_of_ne net _ hq)
    (fun _ _ h => h) (.idle rfl)⟩

theorem Matches.noted {p : P} {tries : Nat} {live : Bool} {party : Party K V ω α} {o : ω} {next : Proc K V ω α}
    (hplan : Disciplined reserved plan) (h : Matches api reserved plan remote net) (hp : net.party p = some party)
    (hcur : party.cur = .note o next) :
    ∃ net', net.move p = some net' ∧
      Matches api reserved plan (remote.setClient p ⟨next, tries, .idle, live⟩) net' := by
  have hmove : net.move p = some (net.setParty p { party with cur := next, log := party.log ++ [o] }) := by
    simp only [Net.move, hp, hcur]
  exact ⟨_, hmove, h.moved hplan hmove h.store_eq (setParty_self net p _) (fun q hq => setParty_of_ne net _ hq)
    (fun _ _ h => h) (.idle rfl)⟩

/-- Some schedule of the parties leads to where the clients are. -/
def Reaches (api : Api K V Req Res) (reserved : K → Bool) (plan : P → List (Op K)) (net : Net P K V ω α)
    (remote : Remote P K V ω α Res) : Prop :=
  ∃ schedule net', Machine.exec Net.move net schedule = some net' ∧ Matches api reserved plan remote net'

theorem reaches_of_move {p : P} (h : ∃ net', net.move p = some net' ∧ Matches api reserved plan remote net') :
    Reaches api reserved plan net remote := by
  obtain ⟨net', hmove, hmatches⟩ := h
  exact ⟨[p], net', by rw [Machine.exec_cons, hmove, Option.bind_some, Machine.exec_nil], hmatches⟩

theorem Matches.reaches (h : Matches api reserved plan remote net) : Reaches api reserved plan net remote :=
  ⟨[], net, rfl, h⟩

/-- The server does what a client asks for, or once more. -/
theorem Matches.servedSet {p : P} {tries : Nat} {live : Bool} {party : Party K V ω α} {k : K} {v : V}
    {next : Proc K V ω α} (hplan : Disciplined reserved plan) (hapi : api.Lawful)
    (h : Matches api reserved plan remote net) (hp : net.party p = some party)
    (hkeeps : Keeps api remote.store ⟨.put k v next, tries, .sent, live⟩ party) :
    Reaches api reserved plan net
      { remote.setClient p
          ⟨.put k v next, tries, .answered (api.serve (api.setRequest k v) remote.store).1, live⟩ with
        store := (api.serve (api.setRequest k v) remote.store).2 } := by
  obtain hset | ⟨hsame, hrefused⟩ := hapi.set k v remote.store
  · rw [hset]
    cases hkeeps with
    | panicked hfail => cases hfail
    | level hcur => exact reaches_of_move (h.written hplan hp hcur rfl)
    | ahead hrest hcur hwrote =>
      cases hrest
      have hk : remote.store k = some v := by
        rw [← h.store_eq]
        exact (visible_some.mp (h.consistent.stored hp hwrote)).2
      rw [← hk, Function.update_eq_self]
      exact (h.stutter hp (.ahead rfl hcur hwrote)).reaches
  · rw [hsame]
    refine (h.stutter hp ?_).reaches
    cases hkeeps with
    | panicked hfail => cases hfail
    | level hcur =>
      refine .level hcur fun response w hflight hread => ?_
      cases hflight
      exact (hrefused w hread).elim
    | ahead hrest hcur hwrote => exact .ahead hrest hcur hwrote

theorem Matches.servedGet {p : P} {tries : Nat} {live : Bool} {party : Party K V ω α} {k : K}
    {next : V → Proc K V ω α} (hapi : api.Lawful) (h : Matches api reserved plan remote net)
    (hp : net.party p = some party) (hkeeps : Keeps api remote.store ⟨.poll k next, tries, .sent, live⟩ party) :
    Reaches api reserved plan net
      { remote.setClient p ⟨.poll k next, tries, .answered (api.serve (api.getRequest k) remote.store).1, live⟩ with
        store := (api.serve (api.getRequest k) remote.store).2 } := by
  obtain ⟨hsame, hvalue⟩ := hapi.get k remote.store
  rw [hsame]
  refine (h.stutter hp ?_).reaches
  cases hkeeps with
  | panicked hfail => cases hfail
  | level hcur =>
    refine .level hcur fun response v hflight hread => ?_
    cases hflight
    exact ⟨k, next, rfl, hvalue v hread⟩
  | ahead hrest => cases hrest

theorem Matches.received {p : P} {rest : Proc K V ω α} {tries : Nat} {response : Res} {answer : Option V}
    {party : Party K V ω α} (hplan : Disciplined reserved plan) (h : Matches api reserved plan remote net)
    (hp : net.party p = some party) (hkeeps : Keeps api remote.store ⟨rest, tries, .answered response, true⟩ party)
    (hread : api.read response = some answer) :
    Reaches api reserved plan net (remote.setClient p ⟨Api.resume answer rest, 0, .idle, true⟩) := by
  cases hkeeps with
  | panicked hfail =>
    obtain rfl : rest = .fail := hfail
    exact (h.stutter hp (.panicked rfl)).reaches
  | level hcur hanswer =>
    cases answer with
    | some v =>
      obtain ⟨k, next, hrest, hk⟩ := hanswer response v rfl hread
      obtain rfl : rest = .poll k next := hrest
      exact reaches_of_move (h.learned hplan hp hcur hk)
    | none =>
      cases rest with
      | put k v next => exact (h.stutter hp (.panicked rfl)).reaches
      | done | fail | poll | note => exact (h.stutter hp (.idle hcur)).reaches
  | @ahead k v next hrest hcur hwrote =>
    obtain rfl : rest = .put k v next := hrest
    cases answer with
    | some w => exact (h.stutter hp (.idle hcur)).reaches
    | none => exact (h.stutter hp (.panicked rfl)).reaches

/-- A step of a client is a step of its party, or none. -/
theorem step_matches {remote' : Remote P K V ω α Res} {a : Action P} (hplan : Disciplined reserved plan)
    (hapi : api.Lawful) (h : Matches api reserved plan remote net) (hstep : remote.step api a = some remote') :
    Reaches api reserved plan net remote' := by
  cases stepped_of_step hstep with
  | note hp =>
    obtain ⟨party, hparty, hkeeps⟩ := h.keeps _ _ hp
    cases hkeeps with
    | panicked hfail => cases hfail
    | level hcur => exact reaches_of_move (h.noted hplan hparty hcur)
    | ahead hrest => cases hrest
  | quiet hp hflight =>
    obtain ⟨party, hparty, hkeeps⟩ := h.keeps _ _ hp
    exact (h.stutter hparty (hkeeps.quiet hflight)).reaches
  | @served p rest tries live request hp hrequest =>
    obtain ⟨party, hparty, hkeeps⟩ := h.keeps _ _ hp
    cases rest with
    | put k v next =>
      cases hrequest
      exact h.servedSet hplan hapi hparty hkeeps
    | poll k next =>
      cases hrequest
      exact h.servedGet hapi hparty hkeeps
    | done | fail | note => cases hrequest
  | received hp hread =>
    obtain ⟨party, hparty, hkeeps⟩ := h.keeps _ _ hp
    exact h.received hplan hparty hkeeps hread
  | panicked hp =>
    obtain ⟨party, hparty, -⟩ := h.keeps _ _ hp
    exact (h.stutter hparty (.panicked rfl)).reaches

omit [DecidableEq P] [DecidableEq K] in
theorem Matches.output {p : P} {a : α} (h : Matches api reserved plan remote net)
    (hp : remote.output p = some a) : net.output p = some a := by
  obtain ⟨c, hc, hresult⟩ := Option.bind_eq_some_iff.mp hp
  split_ifs at hresult
  have hrest := result_eq_some.mp hresult
  obtain ⟨party, hparty, hkeeps⟩ := h.keeps p c hc
  refine output_eq_some.mpr ⟨party, hparty, ?_⟩
  cases hkeeps with
  | panicked hfail =>
    rw [hrest] at hfail
    cases hfail
  | level hcur => exact hcur.trans hrest
  | ahead hput =>
    rw [hrest] at hput
    cases hput

/-- Whatever the clients have come to, the parties can have come to, over the same store: every client that
has returned has returned what its party has. -/
theorem exec_remote_refines {init : P → Option (Proc K V ω α)} (hplan : Disciplined reserved plan)
    (hapi : api.Lawful) (hfollows : ∀ p x, init p = some x → x.Follows (plan p)) {actions : List (Action P)}
    (hrun : Machine.exec (step api) (start init) actions = some remote) :
    ∃ schedule net, Machine.exec Net.move (Net.start init) schedule = some net ∧ net.store = remote.store ∧
      ∀ p a, remote.output p = some a → net.output p = some a := by
  obtain ⟨schedule, net, hnet, hmatches⟩ := Machine.exec_simulation (P := fun _ _ => True)
    (R := Matches api reserved plan) (fun _ _ _ _ h _ hstep => step_matches hplan hapi h hstep)
    (start_matches hfollows) (Machine.guarded_true _ _) hrun
  exact ⟨schedule, net, hnet, hmatches.store_eq, fun _ _ hp => hmatches.output hp⟩

end Refinement

/-! ### Parties as clients that are answered -/

section Completeness

variable [DecidableEq P] [DecidableEq K] {api : Api K V Req Res} {reserved : K → Bool} {plan : P → List (Op K)}

/-- The clients between their requests. -/
def ofNet (net : Net P K V ω α) : Remote P K V ω α Res :=
  ⟨net.store, fun p => (net.party p).map fun party => ⟨party.cur, 0, .idle, true⟩⟩

omit [DecidableEq K] in
theorem ofNet_setParty (net : Net P K V ω α) (p : P) (party : Party K V ω α) :
    (ofNet (net.setParty p party) : Remote P K V ω α Res) = (ofNet net).setClient p ⟨party.cur, 0, .idle, true⟩ := by
  refine congrArg (Remote.mk _) (funext fun q => ?_)
  by_cases heq : q = p
  · subst heq
    rw [setParty_self, Function.update_self, Option.map_some]
  · rw [setParty_of_ne net party heq, Function.update_of_ne heq]
    rfl

omit [DecidableEq K] in
/-- A request that is answered at once. -/
theorem exec_request {remote : Remote P K V ω α Res} {p : P} {rest : Proc K V ω α} {request : Req}
    {answer : Option V} (hp : remote.client p = some ⟨rest, 0, .idle, true⟩)
    (hrequest : api.request rest = some request)
    (hread : api.read (api.serve request remote.store).1 = some answer) :
    Machine.exec (step api) remote [.send p, .serve p, .receive p true] =
      some { remote.setClient p ⟨Api.resume answer rest, 0, .idle, true⟩ with
        store := (api.serve request remote.store).2 } := by
  have hsend : step api remote (.send p) = some (remote.setClient p ⟨rest, 1, .sent, true⟩) := by
    simp only [step, hp, hrequest, Option.isSome_some, if_true]
  have hserve : step api (remote.setClient p ⟨rest, 1, .sent, true⟩) (.serve p) =
      some { remote.setClient p ⟨rest, 1, .answered (api.serve request remote.store).1, true⟩ with
        store := (api.serve request remote.store).2 } := by
    simp only [step, setClient_self, hrequest, Option.map_some]
    simp only [setClient, Function.update_idem]
  have hreceive : step api { remote.setClient p ⟨rest, 1, .answered (api.serve request remote.store).1, true⟩ with
        store := (api.serve request remote.store).2 } (.receive p true) =
      some { remote.setClient p ⟨Api.resume answer rest, 0, .idle, true⟩ with
        store := (api.serve request remote.store).2 } := by
    simp only [step, setClient, Function.update_self, if_true, hread, Function.update_idem]
  rw [Machine.exec_cons, hsend, Option.bind_some, Machine.exec_cons, hserve, Option.bind_some, Machine.exec_cons,
    hreceive, Option.bind_some, Machine.exec_nil]

variable {net net' : Net P K V ω α}

/-- A step of a party is one of its client, or a request of it. -/
theorem exec_ofNet_move {p : P} (hmove : net.move p = some net')
    (hput : ∀ party k v next, net.party p = some party → party.cur = .put k v next → api.Answers k v)
    (hpoll : ∀ k v, net.reading p = some (k, v) → api.Answers k v) :
    ∃ actions, Machine.exec (step api) (ofNet net) actions = some (ofNet net') := by
  have hclient : ∀ {party : Party K V ω α}, net.party p = some party →
      (ofNet net : Remote P K V ω α Res).client p = some ⟨party.cur, 0, .idle, true⟩ := by
    intro party hp
    show (net.party p).map _ = _
    rw [hp, Option.map_some]
  cases moved_of_move hmove with
  | @put party k v next hp hcur =>
    obtain ⟨hserve, w, hread⟩ := (hput party k v next hp hcur).set net.store
    have hrequest : api.request party.cur = some (api.setRequest k v) := by
      rw [hcur]
      rfl
    have hrun := exec_request (hclient hp) hrequest hread
    refine ⟨_, hrun.trans (congrArg some ?_)⟩
    rw [show (api.serve (api.setRequest k v) (ofNet net : Remote P K V ω α Res).store).2 = _ from hserve, hcur]
    change _ = { (ofNet (net.setParty p _) : Remote P K V ω α Res) with
      store := Function.update net.store k (some v) }
    rw [ofNet_setParty]
    rfl
  | @poll party k v next hp hcur hk =>
    obtain ⟨hserve, hread⟩ := (hpoll k v (reading_eq_some.mpr ⟨party, next, hp, hcur, hk⟩)).get net.store hk
    have hrequest : api.request party.cur = some (api.getRequest k) := by
      rw [hcur]
      rfl
    have hrun := exec_request (hclient hp) hrequest hread
    refine ⟨_, hrun.trans (congrArg some ?_)⟩
    rw [show (api.serve (api.getRequest k) (ofNet net : Remote P K V ω α Res).store).2 = _ from hserve, hcur,
      ofNet_setParty]
    rfl
  | wait => exact ⟨[], rfl⟩
  | @note party o next hp hcur =>
    have hp' := hclient hp
    rw [hcur] at hp'
    refine ⟨[.note p], ?_⟩
    rw [Machine.exec_cons, step, hp', ofNet_setParty]
    rfl

/-- Whatever the parties have come to, their clients can have come to, if the server takes the requests about
the entries that are written. -/
theorem exec_ofNet (hplan : Disciplined reserved plan) (hcons : Consistent reserved plan net) {schedule : List P}
    (hrun : Machine.exec Net.move net schedule = some net')
    (hanswers : ∀ k v, net'.store k = some v → api.Answers k v) :
    ∃ actions, Machine.exec (step api) (ofNet net) actions = some (ofNet net') := by
  induction schedule generalizing net with
  | nil =>
    cases hrun
    exact ⟨[], rfl⟩
  | cons p schedule ih =>
    obtain ⟨u, hmove, hrest⟩ := Machine.exec_cons_some _ hrun
    have hcons' := move_consistent hplan hcons hmove
    -- what is written by then is there in the end
    have hlast : ∀ k v, visible reserved u.store k = some v → api.Answers k v := by
      intro k v hk
      have hkept : Consistent reserved plan net' ∧ visible reserved net'.store k = some v :=
        Machine.exec_invariant (I := fun net : Net P K V ω α =>
          Consistent reserved plan net ∧ visible reserved net.store k = some v)
          (fun _ _ _ h hstep => ⟨move_consistent hplan h.1 hstep, move_visible hplan h.1 hstep h.2⟩)
          ⟨hcons', hk⟩ hrest
      exact hanswers k v (visible_some.mp hkept.2).2
    have hfirst : ∃ actions, Machine.exec (step api) (ofNet net) actions = some (ofNet u) := by
      refine exec_ofNet_move hmove (fun party k v next hp hcur => ?_) fun k v hreading => ?_
      · obtain ⟨hopen, -⟩ := hcons.fresh hplan hp hcur
        have hstore : u.store = Function.update net.store k (some v) := by
          simp only [Net.move, hp, hcur, Option.some.injEq] at hmove
          rw [← hmove]
        exact hlast k v (visible_some.mpr ⟨hopen, by rw [hstore, Function.update_self]⟩)
      · obtain ⟨-, hk⟩ := hcons.reading hplan hreading
        exact hlast k v (move_visible hplan hcons hmove hk)
    obtain ⟨actions, hactions⟩ := hfirst
    obtain ⟨actions', hactions'⟩ := ih hcons' hrest
    exact ⟨actions ++ actions', by rw [Machine.exec_append, hactions, Option.bind_some, hactions']⟩

omit [DecidableEq P] [DecidableEq K] in
theorem ofNet_start (init : P → Option (Proc K V ω α)) :
    (ofNet (Net.start init) : Remote P K V ω α Res) = start init := by
  refine congrArg (Remote.mk _) (funext fun p => ?_)
  rw [Net.start, Option.map_map]
  rfl

omit [DecidableEq P] [DecidableEq K] in
theorem ofNet_output (net : Net P K V ω α) (p : P) :
    (ofNet net : Remote P K V ω α Res).output p = net.output p := by
  rw [output, Net.output, ofNet, Option.bind_map]
  simp only [Function.comp_def, if_true]

/-- A run writes finitely many entries. -/
theorem exists_bound (size : K → V → Nat) {init : P → Option (Proc K V ω α)} {schedule : List P}
    (hrun : Machine.exec Net.move (Net.start init) schedule = some net) :
    ∃ bound, ∀ k v, net.store k = some v → size k v ≤ bound := by
  refine Machine.exec_invariant (I := fun net : Net P K V ω α => ∃ bound, ∀ k v, net.store k = some v →
    size k v ≤ bound) (fun net p net' h hmove => ?_) ⟨0, fun k v hk => (Option.some_ne_none v hk.symm).elim⟩ hrun
  obtain ⟨bound, hbound⟩ := h
  cases moved_of_move hmove with
  | @put party k v next hp hcur =>
    refine ⟨max bound (size k v), fun k' v' hk => ?_⟩
    change Function.update net.store k (some v) k' = some v' at hk
    by_cases heq : k' = k
    · subst heq
      rw [Function.update_self, Option.some.injEq] at hk
      rw [hk]
      exact Nat.le_max_right _ _
    · rw [Function.update_of_ne heq] at hk
      exact Nat.le_trans (hbound k' v' hk) (Nat.le_max_left _ _)
  | poll => exact ⟨bound, hbound⟩
  | wait => exact ⟨bound, hbound⟩
  | note => exact ⟨bound, hbound⟩

end Completeness

end Remote

end Network
