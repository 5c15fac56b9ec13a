import AgentScale.Api.Reference
import AgentScale.Edge.ClientPin

set_option autoImplicit false

/-! # An Edge serves only authorized clients

The pin and the registry of connections are changed together, so one invariant covers both: what is
recorded belongs to an authorized client and to a connection whose handler still runs, and every open
connection is recorded (`Service.Sound`). A new set of clients therefore reaches every connection it
has to close. A single-client pin is set once, after the client has been written to the store. -/

namespace AgentScale.Edge

open Checked Transition

variable {P : Platform} {pin : ClientPin P} {c : Connection P} {write : WriteOutcome}
  {s s' : Service P}

/-! ## What `authorize_and_register` can do -/

/-- The three ways an attempt to connect can end. -/
inductive ClientPin.Answer.Case (pin : ClientPin P) (c : Connection P) : Answer P → Prop
  | refused (result : Except String Bool) (written : Option String) (notOk : result ≠ .ok true)
      (unpinned : written ≠ none → pin.auth = .single none true) : Case pin c ⟨result, pin, written⟩
  | admitted (authorized : pin.auth.IsAuthorized c.remoteId) :
      Case pin c ⟨.ok true, pin.register c, none⟩
  | pinned (store : Bool) (written : Option String) (unpinned : pin.auth = .single none store)
      (stored : store = true → written = some (c.remoteId.text ++ "\n")) :
      Case pin c ⟨.ok true, ⟨.single (some c.remoteId) store, (pin.register c).connections⟩, written⟩

theorem ClientPin.authorizeAndRegister_cases (pin : ClientPin P) (c : Connection P)
    (write : WriteOutcome) : Answer.Case pin c (pin.authorizeAndRegister c write) := by
  obtain ⟨auth, connections⟩ := pin
  match auth with
  | .single (some id) store =>
    simp only [authorizeAndRegister]
    split
    · next hid => exact .admitted (congrArg some hid)
    · exact .refused _ _ (by simp) (by simp)
  | .single none false =>
    exact .pinned false none rfl (by simp)
  | .single none true =>
    cases write with
    | written => exact .pinned true _ rfl (fun _ => rfl)
    | failed error => exact .refused _ _ (by simp) (by simp)
    | unsynced error => exact .refused _ _ (by simp) (fun _ => rfl)
  | .managed ids =>
    simp only [authorizeAndRegister]
    split
    · next hmem => exact .admitted hmem
    · exact .refused _ _ (by simp) (by simp)

variable {next : List (EndpointId P)}

theorem ClientPin.replaceManaged_eq_ok {result : ClientPin P × List (Connection P)}
    (h : pin.replaceManaged next = .ok result) :
    ∃ current, pin.auth = .managed current ∧ result.1.auth = .managed next ∧
      result.1.connections = pin.connections.filter (fun c => c ∉ result.2) ∧
      ∀ c, c ∈ result.2 ↔ c ∈ pin.connections ∧ c.remoteId ∈ current ∧ c.remoteId ∉ next := by
  obtain ⟨auth, connections⟩ := pin
  cases auth with
  | single pinned store => exact absurd h (by simp [replaceManaged])
  | managed current =>
    cases h
    refine ⟨current, rfl, rfl, ?_, fun c => by simp⟩
    refine List.filter_congr (fun c hc => ?_)
    simp [hc]

/-! ## The invariant -/

/-- What ties the pin, its registry and the connections of a process together. -/
structure Service.Sound (s : Service P) : Prop where
  keyed : Keyed.Distinct ClientPin.key s.pin.connections
  handles : Keyed.Distinct (·.connection.handle) s.sessions
  stableIds : ∀ x ∈ s.sessions, ∀ y ∈ s.sessions, x.ended = false → y.ended = false →
    x.connection.stableId = y.connection.stableId → x = y
  allowed : ∀ c ∈ s.pin.connections, s.pin.auth.IsAuthorized c.remoteId
  owned : ∀ c ∈ s.pin.connections, ∃ x ∈ s.sessions, x.connection = c ∧ x.ended = false
  recorded : ∀ x ∈ s.sessions, x.closed = false → x.connection ∈ s.pin.connections
  ended : ∀ x ∈ s.sessions, x.ended = true → x.closed = true
  pinned : ∀ id store, s.pin.auth = .single id store → ∀ client ∈ s.authorized, id = some client
  stored : ∀ id, s.pin.auth = .single (some id) true →
    ∃ text, s.trustedClient = some text ∧ parseEndpointId P (trim text) = some id

namespace Service

/-- A line with a client's id is read back as the client. -/
theorem parse_line (id : EndpointId P) : parseEndpointId P (trim (id.text ++ "\n")) = some id := by
  rw [trim_line (P.parseKey_visible _ _ id.display), parseEndpointId_text]

/-- A standalone Edge starts without connections, and pinned to what its store holds. -/
theorem standalonePin_eq_ok {client file : Option String} (h : standalonePin P client file = .ok pin) :
    pin.connections = [] ∧ ∀ id, pin.auth = .single (some id) true →
      ∃ text, file = some text ∧ parseEndpointId P (trim text) = some id := by
  cases client with
  | some text =>
    obtain ⟨_, _, h⟩ := of_bind h
    rw [← pure_eq_ok.1 h]
    exact ⟨rfl, fun _ hid => absurd hid (by simp [ClientPin.strict])⟩
  | none =>
    cases file with
    | none =>
      rw [← pure_eq_ok.1 h]
      exact ⟨rfl, fun _ hid => absurd hid (by simp [ClientPin.tofu])⟩
    | some text =>
      obtain ⟨existing, hexisting, h⟩ := of_bind h
      rw [← pure_eq_ok.1 h]
      refine ⟨rfl, fun id hid => ⟨text, rfl, ?_⟩⟩
      exact (okOr_eq_ok.1 hexisting).trans (ClientAuth.single.inj hid).1

theorem Started.sound (h : s.Started) : s.Sound := by
  obtain ⟨hsessions, hauthorized, hpin⟩ := h
  have hstart : s.pin.connections = [] ∧ ∀ id, s.pin.auth = .single (some id) true →
      ∃ text, s.trustedClient = some text ∧ parseEndpointId P (trim text) = some id := by
    rcases hpin with ⟨ids, hpin⟩ | ⟨client, hpin⟩
    · rw [hpin]
      exact ⟨rfl, fun _ hid => absurd hid (by simp [ClientPin.managed])⟩
    · exact standalonePin_eq_ok hpin
  obtain ⟨hconnections, hstored⟩ := hstart
  refine ⟨?_, ?_, ?_, ?_, ?_, ?_, ?_, ?_, hstored⟩
  all_goals simp [hconnections, hsessions, hauthorized, Keyed.Distinct]

/-- A client is let in: its connection is served and recorded. -/
theorem Sound.admit (h : s.Sound) (hfresh : s.Fresh c) {auth : ClientAuth P} {file : Option String}
    (hgrows : ∀ remote, s.pin.auth.IsAuthorized remote → auth.IsAuthorized remote)
    (hauthorized : auth.IsAuthorized c.remoteId)
    (hpinned : ∀ id store, auth = .single id store → ∀ client ∈ s.authorized, id = some client)
    (hstored : ∀ id, auth = .single (some id) true →
      ∃ text, file = some text ∧ parseEndpointId P (trim text) = some id) :
    Sound ⟨⟨auth, (s.pin.register c).connections⟩, file, ⟨c, false, false⟩ :: s.sessions,
      c.remoteId :: s.authorized⟩ := by
  have hmem : ∀ d, d ∈ (s.pin.register c).connections ↔
      d = c ∨ d ∈ s.pin.connections ∧ ClientPin.key d ≠ ClientPin.key c :=
    fun d => Keyed.mem_upsert h.keyed
  -- whatever is recorded has a running handler, so the new connection displaces nothing
  have hkept : ∀ d ∈ s.pin.connections, ClientPin.key d ≠ ClientPin.key c := by
    intro d hd hkey
    obtain ⟨x, hx, rfl, hrunning⟩ := h.owned d hd
    exact (hfresh x hx).2 hrunning (congrArg Prod.snd hkey)
  constructor
  case keyed => exact h.keyed.upsert
  case handles => exact Keyed.distinct_cons.2 ⟨fun x hx => (hfresh x hx).1, h.handles⟩
  case stableIds =>
    intro x hx y hy hrunning hrunning' hsame
    rcases List.mem_cons.1 hx with rfl | hx <;> rcases List.mem_cons.1 hy with rfl | hy
    · rfl
    · exact absurd hsame.symm ((hfresh y hy).2 hrunning')
    · exact absurd hsame ((hfresh x hx).2 hrunning)
    · exact h.stableIds x hx y hy hrunning hrunning' hsame
  case allowed =>
    intro d hd
    rcases (hmem d).1 hd with rfl | ⟨hd, _⟩
    · exact hauthorized
    · exact hgrows _ (h.allowed d hd)
  case owned =>
    intro d hd
    rcases (hmem d).1 hd with rfl | ⟨hd, _⟩
    · exact ⟨_, List.mem_cons_self, rfl, rfl⟩
    · obtain ⟨x, hx, howner⟩ := h.owned d hd
      exact ⟨x, List.mem_cons_of_mem _ hx, howner⟩
  case recorded =>
    intro x hx hopen
    rcases List.mem_cons.1 hx with rfl | hx
    · exact (hmem _).2 (.inl rfl)
    · have hrecorded := h.recorded x hx hopen
      exact (hmem _).2 (.inr ⟨hrecorded, hkept _ hrecorded⟩)
  case ended =>
    intro x hx hended
    rcases List.mem_cons.1 hx with rfl | hx
    · cases hended
    · exact h.ended x hx hended
  case pinned =>
    intro id store hauth client hclient
    rcases List.mem_cons.1 hclient with rfl | hclient
    · have hauth' : auth.IsAuthorized c.remoteId := hauthorized
      rw [show auth = .single id store from hauth] at hauth'
      exact hauth'
    · exact hpinned id store hauth client hclient
  case stored => exact hstored

/-- What an attempt to connect does to the process. -/
theorem connect_cases (s : Service P) (c : Connection P) (write : WriteOutcome) :
    (∃ file, s.connect c write = { s with trustedClient := file } ∧
      (file = s.trustedClient ∨ s.pin.auth = .single none true)) ∨
    (s.pin.auth.IsAuthorized c.remoteId ∧ s.connect c write = ⟨s.pin.register c, s.trustedClient,
      ⟨c, false, false⟩ :: s.sessions, c.remoteId :: s.authorized⟩) ∨
    ∃ store file, s.pin.auth = .single none store ∧
      (store = true → file = some (c.remoteId.text ++ "\n")) ∧
      s.connect c write = ⟨⟨.single (some c.remoteId) store, (s.pin.register c).connections⟩, file,
        ⟨c, false, false⟩ :: s.sessions, c.remoteId :: s.authorized⟩ := by
  have hcases := s.pin.authorizeAndRegister_cases c write
  unfold Service.connect
  generalize s.pin.authorizeAndRegister c write = answer at hcases
  cases hcases with
  | refused result written notOk unpinned =>
    refine .inl ⟨written <|> s.trustedClient, ?_, ?_⟩
    · match result with
      | .ok true => exact absurd rfl notOk
      | .ok false => rfl
      | .error _ => rfl
    · cases written with
      | none => exact .inl rfl
      | some text => exact .inr (unpinned (by simp))
  | admitted authorized => exact .inr (.inl ⟨authorized, rfl⟩)
  | pinned store written unpinned stored =>
    refine .inr (.inr ⟨store, written <|> s.trustedClient, unpinned, fun hstore => ?_, rfl⟩)
    rw [stored hstore]
    rfl

theorem Sound.connect (h : s.Sound) (hfresh : s.Fresh c) : (s.connect c write).Sound := by
  rcases s.connect_cases c write with ⟨file, heq, hfile⟩ | ⟨hauthorized, heq⟩ |
    ⟨store, file, hunpinned, hstored, heq⟩
  · rw [heq]
    refine { h with stored := ?_ }
    intro id hid
    rcases hfile with rfl | hunpinned
    · exact h.stored id hid
    · cases hid.symm.trans hunpinned
  · rw [heq]
    exact h.admit hfresh (fun _ hremote => hremote) hauthorized h.pinned h.stored
  · rw [heq]
    refine h.admit hfresh ?_ rfl ?_ ?_
    · intro remote hremote
      exact absurd (hunpinned ▸ hremote) (by simp [ClientAuth.IsAuthorized])
    · -- nobody has been let in before the pin was set
      intro id store' _ client hclient
      exact absurd (h.pinned none store hunpinned client hclient) (by simp)
    · intro id hid
      obtain ⟨hid, hstore⟩ := ClientAuth.single.inj hid
      exact ⟨_, hstored hstore, Option.some.inj hid ▸ parse_line c.remoteId⟩

/-- Closing connections only changes which of them are open. -/
theorem mem_close {p : Connection P → Bool} {y : Session P} : y ∈ (s.close p).sessions ↔
    ∃ x ∈ s.sessions, y = ⟨x.connection, p x.connection || x.closed, x.ended⟩ := by
  rw [Service.close, List.mem_map]
  refine exists_congr (fun x => and_congr_right (fun _ => ?_))
  cases p x.connection with
  | true => simp [eq_comm]
  | false => simp [eq_comm]

theorem close_handles (p : Connection P → Bool) : (s.close p).sessions.map (·.connection.handle) =
    s.sessions.map (·.connection.handle) := by
  rw [Service.close, List.map_map]
  refine List.map_congr_left (fun x _ => ?_)
  cases hp : p x.connection <;> simp [hp]

/-- Connections that are closed may be forgotten. -/
theorem Sound.close_of (h : s.Sound) {p : Connection P → Bool} {auth : ClientAuth P}
    {connections : List (Connection P)} (hsub : connections.Sublist s.pin.connections)
    (hrest : ∀ c ∈ s.pin.connections, p c = false → c ∈ connections)
    (hallowed : ∀ c ∈ connections, auth.IsAuthorized c.remoteId)
    (hpinned : ∀ id store, auth = .single id store → ∀ client ∈ s.authorized, id = some client)
    (hstored : ∀ id, auth = .single (some id) true →
      ∃ text, s.trustedClient = some text ∧ parseEndpointId P (trim text) = some id) :
    ({ s with pin := ⟨auth, connections⟩ }.close p).Sound where
  keyed := h.keyed.sublist hsub
  handles := by
    rw [Keyed.Distinct, close_handles]
    exact h.handles
  stableIds := by
    intro x hx y hy hrunning hrunning' hsame
    obtain ⟨x₀, hx₀, rfl⟩ := mem_close.1 hx
    obtain ⟨y₀, hy₀, rfl⟩ := mem_close.1 hy
    rw [h.stableIds x₀ hx₀ y₀ hy₀ hrunning hrunning' hsame]
  allowed := hallowed
  owned := by
    intro c hc
    obtain ⟨x, hx, howner, hrunning⟩ := h.owned c (hsub.subset hc)
    exact ⟨_, mem_close.2 ⟨x, hx, rfl⟩, howner, hrunning⟩
  recorded := by
    intro y hy hopen
    obtain ⟨x, hx, rfl⟩ := mem_close.1 hy
    obtain ⟨hp, hopen'⟩ := Bool.or_eq_false_iff.1 hopen
    exact hrest _ (h.recorded x hx hopen') hp
  ended := by
    intro y hy hended
    obtain ⟨x, hx, rfl⟩ := mem_close.1 hy
    simp [h.ended x hx hended]
  pinned := hpinned
  stored := hstored

theorem Sound.close (h : s.Sound) (p : Connection P → Bool) : (s.close p).Sound := by
  have hclosed : ({ s with pin := ⟨s.pin.auth, s.pin.connections⟩ }.close p).Sound :=
    h.close_of (List.Sublist.refl _) (fun _ hc _ => hc) h.allowed h.pinned h.stored
  exact hclosed

theorem replaceManaged_eq_ok (h : s.replaceManaged next = .ok s') :
    ∃ current pin closed, s.pin.replaceManaged next = .ok (pin, closed) ∧
      s.pin.auth = .managed current ∧ pin.auth = .managed next ∧
      s' = { s with pin }.close (fun c => c ∈ closed) := by
  obtain ⟨⟨pin, closed⟩, hpin, h⟩ := of_bind h
  obtain ⟨current, hcurrent, hnext, _⟩ := ClientPin.replaceManaged_eq_ok hpin
  exact ⟨current, pin, closed, hpin, hcurrent, hnext, (pure_eq_ok.1 h).symm⟩

/-- A managed pin takes every new set of clients. -/
theorem replaceManaged_of_managed {ids : List (EndpointId P)} (hids : s.pin.auth = .managed ids)
    (next : List (EndpointId P)) :
    ∃ s', s.replaceManaged next = .ok s' ∧ s'.pin.auth = .managed next := by
  obtain ⟨result, hresult⟩ : ∃ result, s.pin.replaceManaged next = .ok result := by
    simp [ClientPin.replaceManaged, hids]
  obtain ⟨_, _, hnext, _⟩ := ClientPin.replaceManaged_eq_ok hresult
  exact ⟨_, bind_ok hresult rfl, hnext⟩

theorem Sound.replaceManaged (h : s.Sound) (hreplaced : s.replaceManaged next = .ok s') :
    s'.Sound := by
  obtain ⟨current, pin, closed, hpin, hcurrent, hnext, rfl⟩ := replaceManaged_eq_ok hreplaced
  obtain ⟨current', hcurrent', _, hconnections, hclosed⟩ := ClientPin.replaceManaged_eq_ok hpin
  obtain rfl : current = current' := ClientAuth.managed.inj (hcurrent.symm.trans hcurrent')
  simp only at hconnections hclosed
  have heq : pin = ⟨.managed next, s.pin.connections.filter (fun c => c ∉ closed)⟩ := by
    rw [← hconnections, ← hnext]
  rw [heq]
  refine h.close_of List.filter_sublist ?_ ?_ (by simp) (by simp)
  · intro c hc hopen
    exact List.mem_filter.2 ⟨hc, by simpa using hopen⟩
  · -- a recorded client was allowed before; it is closed unless it still is
    intro c hc
    obtain ⟨hc, hkept⟩ := List.mem_filter.1 hc
    have hallowed : c.remoteId ∈ current := by
      have hbefore := h.allowed c hc
      rwa [hcurrent] at hbefore
    by_contra hnot
    exact of_decide_eq_true hkept ((hclosed c).2 ⟨hc, hallowed, hnot⟩)

/-- Ending a handler removes its own connection from the registry and no other. -/
theorem Sound.finish (h : s.Sound) {x : Session P} (hx : x ∈ s.sessions) (hrunning : x.ended = false) :
    (s.finish x.connection).Sound := by
  have hsessions : ∀ y, y ∈ (s.finish x.connection).sessions ↔ y = ⟨x.connection, true, true⟩ ∨
      y ∈ s.sessions ∧ y ≠ x := by
    intro y
    simp only [Service.finish, List.mem_map]
    constructor
    · rintro ⟨z, hz, rfl⟩
      by_cases hhandle : z.connection.handle = x.connection.handle
      · obtain rfl := h.handles.eq_of_key hz hx hhandle
        exact .inl (if_pos rfl)
      · rw [if_neg hhandle]
        exact .inr ⟨hz, fun heq => hhandle (heq ▸ rfl)⟩
    · rintro (rfl | ⟨hy, hne⟩)
      · exact ⟨x, hx, if_pos rfl⟩
      · exact ⟨y, hy, if_neg (fun hhandle => hne (h.handles.eq_of_key hy hx hhandle))⟩
  have hconnections : ∀ c, c ∈ (s.finish x.connection).pin.connections ↔
      c ∈ s.pin.connections ∧ ClientPin.key c ≠ ClientPin.key x.connection :=
    fun c => Keyed.mem_discard
  -- two running handlers have different stable ids, so they do not share a key
  have hother : ∀ y ∈ s.sessions, y.ended = false → y ≠ x →
      ClientPin.key y.connection ≠ ClientPin.key x.connection :=
    fun y hy hrunning' hne hkey =>
      hne (h.stableIds y hy x hx hrunning' hrunning (congrArg Prod.snd hkey))
  have hrunningOf : ∀ y ∈ s.sessions, y.closed = false → y.ended = false := by
    intro y hy hopen
    by_contra hended
    exact absurd (h.ended y hy (by simpa using hended)) (by simp [hopen])
  constructor
  case keyed => exact h.keyed.discard
  case handles =>
    have hmap : (s.finish x.connection).sessions.map (·.connection.handle) =
        s.sessions.map (·.connection.handle) := by
      rw [Service.finish, List.map_map]
      refine List.map_congr_left (fun y _ => ?_)
      by_cases hhandle : y.connection.handle = x.connection.handle <;> simp [hhandle]
    rw [Keyed.Distinct, hmap]
    exact h.handles
  case stableIds =>
    intro y hy z hz hrunningY hrunningZ hsame
    rcases (hsessions y).1 hy with rfl | ⟨hy, _⟩
    · cases hrunningY
    · rcases (hsessions z).1 hz with rfl | ⟨hz, _⟩
      · cases hrunningZ
      · exact h.stableIds y hy z hz hrunningY hrunningZ hsame
  case allowed =>
    intro c hc
    exact h.allowed c ((hconnections c).1 hc).1
  case owned =>
    intro c hc
    obtain ⟨hc, hkey⟩ := (hconnections c).1 hc
    obtain ⟨y, hy, rfl, hrunning'⟩ := h.owned c hc
    exact ⟨y, (hsessions y).2 (.inr ⟨hy, fun heq => hkey (heq ▸ rfl)⟩), rfl, hrunning'⟩
  case recorded =>
    intro y hy hopen
    rcases (hsessions y).1 hy with rfl | ⟨hy, hne⟩
    · cases hopen
    · exact (hconnections _).2 ⟨h.recorded y hy hopen, hother y hy (hrunningOf y hy hopen) hne⟩
  case ended =>
    intro y hy hended
    rcases (hsessions y).1 hy with rfl | ⟨hy, _⟩
    · rfl
    · exact h.ended y hy hended
  case pinned => exact h.pinned
  case stored => exact h.stored

theorem sound_of_reachable (hr : (service P).Reachable s) : s.Sound := by
  refine hr.invariant (fun s hs => hs.sound) ?_
  intro s s' _ h hstep
  cases hstep with
  | connect c write fresh => exact h.connect fresh
  | close p => exact h.close p
  | finish x mem running leaving => exact h.finish mem running
  | replaceManaged _ next replaced => exact h.replaceManaged replaced

/-- A pin that is set stays as it is. -/
theorem pinned_of_steps {id : EndpointId P} {store : Bool} (hr : (service P).Reachable s)
    (hsteps : (service P).Steps s s') (hpin : s.pin.auth = .single (some id) store) :
    s'.pin.auth = .single (some id) store := by
  refine System.Steps.preserves (P := fun s => s.pin.auth = .single (some id) store) hsteps hr ?_ hpin
  intro s s' _ hpin hstep
  cases hstep with
  | connect c write fresh =>
    rcases s.connect_cases c write with ⟨_, heq, _⟩ | ⟨_, heq⟩ | ⟨_, _, hunpinned, _⟩
    · rwa [heq]
    · rwa [heq]
    · cases hpin.symm.trans hunpinned
  | close p => exact hpin
  | finish x mem running leaving => exact hpin
  | replaceManaged _ next replaced =>
    obtain ⟨current, _, _, _, hcurrent, _⟩ := replaceManaged_eq_ok replaced
    cases hpin.symm.trans hcurrent

end Service

/-- **An Edge serves only authorized clients.** In managed mode every accepted connection that is
    neither closed nor unregistered is recorded under its client, who is allowed, and a new set of
    clients closes every connection from outside it. In single-client mode one identity at most is let
    in, the pin does not change once it is set, and a client that was trusted on first use is pinned
    again by a restart. -/
theorem authorized_clients_only {s : Service P} (hr : (service P).Reachable s) :
    (∀ ids, s.pin.auth = .managed ids →
      (∀ x ∈ s.sessions, x.closed = false → x.ended = false →
        s.pin.recorded x.connection.remoteId x.connection.stableId = some x.connection ∧
          x.connection.remoteId ∈ ids) ∧
      ∀ next, ∃ s', s.replaceManaged next = .ok s' ∧ s'.pin.auth = .managed next ∧
        ∀ x ∈ s'.sessions, x.connection.remoteId ∉ next → x.closed = true) ∧
    ∀ pinned store, s.pin.auth = .single pinned store →
      (∀ client ∈ s.authorized, pinned = some client) ∧
      (∀ id, pinned = some id → ∀ s', (service P).Steps s s' → s'.pin.auth = .single (some id) store) ∧
      (store = true → ∀ id, pinned = some id →
        standalonePin P none s.trustedClient = .ok (.tofu (some id))) := by
  have h := Service.sound_of_reachable hr
  refine ⟨fun ids hids => ⟨?_, ?_⟩, fun pinned store hpin => ⟨?_, ?_, ?_⟩⟩
  · intro x hx hopen _
    have hrecorded := h.recorded x hx hopen
    refine ⟨(Keyed.lookup_eq_some h.keyed).2 ⟨hrecorded, rfl⟩, ?_⟩
    have hallowed := h.allowed _ hrecorded
    rwa [hids] at hallowed
  · intro next
    obtain ⟨s', hs', hnext⟩ := Service.replaceManaged_of_managed hids next
    have h' := h.replaceManaged hs'
    refine ⟨s', hs', hnext, fun x hx hout => ?_⟩
    by_contra hopen
    have hallowed := h'.allowed _ (h'.recorded x hx (by simpa using hopen))
    rw [hnext] at hallowed
    exact hout hallowed
  · exact h.pinned pinned store hpin
  · rintro id rfl s' hsteps
    exact Service.pinned_of_steps hr hsteps hpin
  · rintro rfl id rfl
    obtain ⟨text, htext, hid⟩ := h.stored id hpin
    rw [htext]
    exact bind_ok (okOr_eq_ok.2 hid) rfl

section Example

open Reference

def connectionOf (handle : Nat) (node : SecretKey) : Connection (platform []) :=
  ⟨handle, node.public _, handle, .rpc⟩

/-- A process that has just been started with a pin. -/
def startedWith (pin : ClientPin (platform [])) : Service (platform []) := ⟨pin, none, [], []⟩

/-- An allowed client is served until the set of clients is replaced; a client that is trusted on first
    use is trusted again after a restart. -/
theorem authorized_clients_only_of_first_connection :
    (∃ s s', (service (platform [])).Reachable s ∧
      s.pin.recorded (nodeKey.public _) 0 = some (connectionOf 0 nodeKey) ∧
      s.replaceManaged [otherKey.public _] = .ok s' ∧ s'.sessions ≠ [] ∧
      ∀ x ∈ s'.sessions, x.connection.remoteId ∉ [otherKey.public (platform [])] → x.closed = true) ∧
    ∃ s, (service (platform [])).Reachable s ∧ s.authorized = [nodeKey.public _] ∧
      standalonePin (platform []) none s.trustedClient = .ok (.tofu (some (nodeKey.public _))) := by
  constructor
  · have hinit : (startedWith (.managed [nodeKey.public _])).Started :=
      ⟨rfl, rfl, .inl ⟨_, rfl⟩⟩
    have hr : (service (platform [])).Reachable
        ((startedWith (.managed [nodeKey.public _])).connect (connectionOf 0 nodeKey) .written) :=
      System.Reachable.step ⟨_, hinit, .refl⟩ (.connect _ _ _ (by decide))
    obtain ⟨hopen, hreplace⟩ := (authorized_clients_only hr).1 [nodeKey.public _] (by decide +kernel)
    obtain ⟨s', hs', _, hclosed⟩ := hreplace [otherKey.public _]
    have hsession : ⟨connectionOf 0 nodeKey, false, false⟩ ∈
        ((startedWith (.managed [nodeKey.public _])).connect (connectionOf 0 nodeKey)
          .written).sessions := by decide +kernel
    refine ⟨_, s', hr, (hopen _ hsession rfl rfl).1, hs', ?_, hclosed⟩
    obtain ⟨_, _, _, _, _, _, rfl⟩ := Service.replaceManaged_eq_ok hs'
    exact List.ne_nil_of_mem (Service.mem_close.2 ⟨_, hsession, rfl⟩)
  · have hinit : (startedWith (.tofu none)).Started := ⟨rfl, rfl, .inr ⟨none, rfl⟩⟩
    have hr : (service (platform [])).Reachable
        ((startedWith (.tofu none)).connect (connectionOf 0 nodeKey) .written) :=
      System.Reachable.step ⟨_, hinit, .refl⟩ (.connect _ _ _ (by decide))
    exact ⟨_, hr, rfl, ((authorized_clients_only hr).2 (some (nodeKey.public _)) true rfl).2.2 rfl _ rfl⟩

end Example

end AgentScale.Edge
