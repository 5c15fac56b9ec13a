import AgentScale.Control.World
import AgentScale.Control.Mirror

set_option autoImplicit false

/-! # What Control decides

Every delta that reaches the database has been decided on by an operation, by the cleanup at a start,
or by an offline `bootstrap`; it is one of the listed mutations (`Decision.mutation`). The maps
Control answers with are signed in the state after the decision. -/

namespace AgentScale.Control

open Checked ControlApi RelayApi

variable {P : Platform} {key : SecretKey} {amb : Ambient} {state : ControlState}

/-! ## What the operations do -/

variable {respond : ControlState → Except ApiError Response}

theorem map_eq_commit {α : Type} {x : Except ApiError (Plan α)} {f : α → Response}
    {delta : StateDelta} (h : x.map (Plan.map f) = .ok (.commit delta respond)) :
    ∃ respond', x = .ok (.commit delta respond') ∧
      respond = fun state => (respond' state).map f := by
  cases x with
  | error e => exact absurd h (by simp [Except.map])
  | ok plan =>
    cases plan with
    | reply answer => exact absurd h (by simp [Except.map, Plan.map])
    | commit delta' respond' =>
      obtain ⟨rfl, rfl⟩ := Plan.commit.inj (Except.ok.inj h)
      exact ⟨respond', rfl, rfl⟩

variable {answer : Response}

theorem map_eq_reply {α : Type} {x : Except ApiError (Plan α)} {f : α → Response}
    (h : x.map (Plan.map f) = .ok (.reply answer)) :
    ∃ value, x = .ok (.reply value) ∧ answer = f value := by
  cases x with
  | error e => exact absurd h (by simp [Except.map])
  | ok plan =>
    cases plan with
    | reply value =>
      obtain rfl := Plan.reply.inj (Except.ok.inj h)
      exact ⟨value, rfl, rfl⟩
    | commit delta' respond' => exact absurd h (by simp [Except.map, Plan.map])

/-- The operation asks for nothing outside the demand. -/
structure Operation.Within (s : ControlState) (op : Operation P) (asked : Demand) : Prop where
  removes : ∀ r ∈ op.asked s, asked.removes r
  enrols : ∀ request, op = .claim request → asked.enrols request.token.invite
  moves : ∀ move ∈ op.moves s, asked.moves move.1 move.2
  invites : op.invites → asked.invites

/-- The demand without limits. -/
def Demand.any : Demand := ⟨fun _ => True, fun _ => True, fun _ _ => True, True⟩

theorem Operation.within_any (op : Operation P) : op.Within state .any :=
  ⟨fun _ _ => trivial, fun _ _ => trivial, fun _ _ => trivial, fun _ => trivial⟩

variable {op : Operation P}

/-- Every operation commits one of the listed mutations. -/
theorem Operation.plan_mutation {asked : Demand} {delta : StateDelta}
    (hwithin : op.Within state asked) (h : op.plan P key amb state = .ok (.commit delta respond)) :
    Mutation P asked amb state delta := by
  cases op with
  | claim request => exact claim_mutation (map_eq_commit h).choose_spec.1 (hwithin.enrols request rfl)
  | clientEdgeInvite request =>
    exact clientEdgeInvite_mutation (map_eq_commit h).choose_spec.1 (hwithin.invites trivial)
  | clientEdgeRemove request =>
    refine clientEdgeRemove_mutation (map_eq_commit h).choose_spec.1 (fun edge hedge hid => ?_)
    exact hwithin.removes _
      (List.mem_map_of_mem (List.mem_filter.2 ⟨hedge, by simpa using hid⟩))
  | provisioner provisionerId request =>
    exact (provisionerRequest_commit hwithin.removes hwithin.moves hwithin.invites
      (map_eq_commit h).choose_spec.1).mutation
  | watchRenewal request => exact watchRenewal_mutation (map_eq_commit h).choose_spec.1
  | watch request renewed =>
    obtain ⟨_, _, h⟩ := map_eq_ok h
    cases h
  | relayWatchPort request => exact relayWatchPort_mutation (map_eq_commit h).choose_spec.1
  | relayWatch request =>
    obtain ⟨_, _, h⟩ := map_eq_ok h
    cases h
  | localAdmin request =>
    exact dispatchLocalAdmin_mutation (map_eq_commit h).choose_spec.1 hwithin.removes hwithin.moves
      hwithin.invites
  | cleanup => exact cleanup_mutation P (map_eq_commit h).choose_spec.1

/-- A map answered without a commit was signed in the current state. -/
theorem Operation.plan_reply_map {map : NodeMap} (h : op.plan P key amb state = .ok (.reply answer))
    (hmap : answer.nodeMap = some map) :
    ∃ recipient signed, signedMap P state key amb.clock recipient = .ok signed ∧
      signed.map = map := by
  cases op with
  | claim request =>
    obtain ⟨result, hclaim, rfl⟩ := map_eq_reply h
    obtain ⟨_, endpointId, _, _, _, _, ⟨_, _, _, hplan⟩ | ⟨_, _, result', hjoin, hplan⟩⟩ :=
      claim_eq_ok hclaim
    · exact absurd hplan (by simp)
    · obtain rfl := Plan.reply.inj hplan
      exact ⟨endpointId, result.map, joinResult_eq_ok hjoin, Option.some.inj hmap⟩
  | watch request renewed =>
    obtain ⟨signed, hwatch, h⟩ := map_eq_ok h
    obtain rfl := Plan.reply.inj h
    cases signed with
    | none => exact absurd hmap (by simp [Response.nodeMap])
    | some signed =>
      obtain ⟨recipient, _, hsigned⟩ := watch_eq_ok hwatch
      exact ⟨recipient, signed, hsigned, Option.some.inj hmap⟩
  | relayWatch request =>
    obtain ⟨update, _, h⟩ := map_eq_ok h
    obtain rfl := Plan.reply.inj h
    cases update <;> exact absurd hmap (by simp [Response.nodeMap])
  | clientEdgeRemove request =>
    obtain ⟨signed, hremove, _⟩ := map_eq_reply h
    obtain ⟨_, _, _, hplan⟩ := clientEdgeRemove_eq_ok hremove
    exact absurd hplan (by simp)
  | clientEdgeInvite | provisioner | watchRenewal | relayWatchPort | localAdmin | cleanup =>
    obtain ⟨_, _, rfl⟩ := map_eq_reply h
    exact absurd hmap (by simp [Response.nodeMap])

/-- A map answered after a commit was signed in the committed state. -/
theorem Operation.plan_commit_map {delta : StateDelta} {state' : ControlState} {map : NodeMap}
    (h : op.plan P key amb state = .ok (.commit delta respond))
    (hanswer : respond state' = .ok answer) (hmap : answer.nodeMap = some map) :
    ∃ recipient signed, signedMap P state' key amb.clock recipient = .ok signed ∧
      signed.map = map := by
  cases op with
  | claim request =>
    obtain ⟨respond', hclaim, rfl⟩ := map_eq_commit h
    obtain ⟨result, hresult, rfl⟩ := map_eq_ok hanswer
    obtain ⟨_, endpointId, _, _, _, _, ⟨_, _, _, hplan⟩ | ⟨_, _, _, _, hplan⟩⟩ := claim_eq_ok hclaim
    · obtain ⟨_, rfl⟩ := Plan.commit.inj hplan
      exact ⟨endpointId, result.map, joinResult_eq_ok hresult, Option.some.inj hmap⟩
    · cases hplan
  | clientEdgeRemove request =>
    obtain ⟨respond', hremove, rfl⟩ := map_eq_commit h
    obtain ⟨signed, hsigned, rfl⟩ := map_eq_ok hanswer
    obtain ⟨client, _, _, _, hplan⟩ := clientEdgeRemove_eq_ok hremove
    obtain ⟨_, rfl⟩ := Plan.commit.inj hplan
    exact ⟨client, signed, mapError_eq_ok.1 hsigned, Option.some.inj hmap⟩
  | watch request renewed | relayWatch request =>
    obtain ⟨_, _, h⟩ := map_eq_ok h
    cases h
  | clientEdgeInvite | provisioner | watchRenewal | relayWatchPort | localAdmin | cleanup =>
    obtain ⟨_, _, rfl⟩ := map_eq_commit h
    obtain ⟨_, _, rfl⟩ := map_eq_ok hanswer
    exact absurd hmap (by simp [Response.nodeMap])

/-! ## Decisions -/

/-- A decision to commit a delta in the state `s`, where operations are limited to the allowed ones. -/
inductive Decision (P : Platform) (key : SecretKey)
    (allowed : Ambient → ControlState → Operation P → Prop) (amb : Ambient) (s : ControlState) :
    StateDelta → Prop
  | operation (op : Operation P) (delta : StateDelta)
      (respond : ControlState → Except ApiError Response) (allows : allowed amb s op)
      (plan : op.plan P key amb s = .ok (.commit delta respond)) : Decision P key allowed amb s delta
  | startup : Decision P key allowed amb s (.quiet (cleanupChanges amb.clock s))
  | bootstrap (relayName relayUrl : String) (ttlSecs : Nat) (result : InviteResult)
      (record : InviteRecord) (noRelay : s.relays = [])
      (built : buildInvite P key { s with invites := s.invites.filter (fun i => !i.isPendingRelay) }
        amb.clock amb.inviteToken relayName (.relay relayUrl) ttlSecs amb.secretToken =
          .ok (result, record)) :
      Decision P key allowed amb s (.quiet (staleRelayInvites s ++ [.putInvite record]))

variable {allowed : Ambient → ControlState → Operation P → Prop} {delta : StateDelta}

theorem Decision.mutation {asked : Demand} (h : Decision P key allowed amb state delta)
    (hwithin : ∀ op, allowed amb state op → op.Within state asked) (hinvites : asked.invites) :
    Mutation P asked amb state delta := by
  cases h with
  | operation op delta respond allows plan => exact Operation.plan_mutation (hwithin op allows) plan
  | startup => exact .cleanup
  | bootstrap relayName relayUrl ttlSecs result record noRelay built =>
    obtain ⟨hid, hkind, hrecord⟩ := buildInvite_eq_ok P built
    refine .bootstrap record hid ?_ ?_ ?_ noRelay ⟨relayUrl, hkind⟩ hinvites
    all_goals rw [hrecord]

theorem Decision.mutation_any (h : Decision P key allowed amb state delta) :
    Mutation P .any amb state delta :=
  h.mutation (fun op _ => op.within_any) trivial

end AgentScale.Control
