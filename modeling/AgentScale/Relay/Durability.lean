import AgentScale.Library.Writes
import AgentScale.Relay.Sessions

set_option autoImplicit false

/-! # The writes of a revocation update

`apply_revocation_update` keeps three copies of the revocations: `revocations.json`, the index that
connections are checked against, and the update behind the mutex. Here it is taken apart into what it
decides before its first write (`prepare`) and the writes themselves, in the order of the source: the
temporary file, the rename, the index, the disconnections, the value behind the mutex. A process may
stop between any two writes, and connections come and go in between. Taken together the writes are the
update of `Relay.Server` (`applyRevocationUpdate_eq`). -/

namespace AgentScale.Relay

open Checked RelayApi Transition Writes

/-! ## Writes -/

/-- One write of an update. -/
inductive Write (P : Platform) where
  /-- The temporary file is created or written to; it has the content when it is complete. -/
  | tmp (content : Option RevocationUpdate)
  /-- The temporary file takes the place of `revocations.json`. -/
  | rename
  /-- `state.revoked.store`, with the update that the index is made from. -/
  | storeIndex (update : RevocationUpdate) (revoked : RevocationIndex P)
  /-- `state.clients.disconnect`. -/
  | disconnect (endpointId : EndpointId P)
  /-- `*current = ..`. -/
  | storeCurrent (update : RevocationUpdate)

/-- The steps of `persist_revocation_state` that can fail. -/
inductive PersistStep where
  | create
  | write
  | sync
  | rename

variable (P : Platform)

/-- `persist_revocation_state`: its writes, up to the step that fails, and its result. -/
def persistRevocationState (failure : Option (PersistStep × String)) (state : RevocationUpdate) :
    List (Write P) × Except String Unit :=
  match failure with
  | some (.create, e) => ([], .error e)
  | some (.write, e) => ([.tmp none, .tmp none], .error e)
  | some (.sync, e) | some (.rename, e) => ([.tmp none, .tmp (some state)], .error e)
  | none => ([.tmp none, .tmp (some state), .rename], .ok ())

/-- What an update has decided when it comes to its first write. -/
structure Prepared where
  update : RevocationUpdate
  index : RevocationIndex P
  /-- The endpoints to disconnect, in order. -/
  dropped : List (EndpointId P)

/-- `reapply` up to its first write. -/
def prepareReapply (host : Host P) (memory : Memory P) (now : Int) (update : RevocationUpdate) :
    Except ApiError (Option (Prepared P)) := do
  ensure (∀ r ∈ update.revocations, r ∈ memory.current.revocations)
    (ApiError.conflict "revocation version already has different content")
  if memory.current.revocations.any (fun r => decide (r.expiresAt ≤ now)) then do
    let active ← (validateRevocations P (pruned now memory.current) host.audience).mapError
      ApiError.badRequest
    return some ⟨pruned now memory.current, active, []⟩
  else return none

/-- `accumulate` up to its first write. -/
def prepareAccumulate (host : Host P) (memory : Memory P) (now : Int) (update : RevocationUpdate)
    (delta : RevocationIndex P) : Except ApiError (Option (Prepared P)) := do
  ensure ((I64.saturatingSub now update.issuedAt).natAbs ≤ MAX_CLOCK_SKEW_SECS.natAbs)
    (ApiError.unauthorized "revocation timestamp is outside the 5 minute window")
  ensure (∀ r ∈ update.revocations, memory.current.version < r.revision)
    (ApiError.conflict "revocation update overlaps the applied revision")
  let merged ← foldAll (mergeRevocation P) (activeRevocations P now memory.current.revocations)
    update.revocations
  let next ← (validateRevocations P (accumulated update merged) host.audience).mapError
    ApiError.badRequest
  return some ⟨accumulated update merged, next, (delta.filter (fun entry =>
    now < entry.2.2 ∧ revokedThrough memory.revoked entry.1 now < entry.2.1)).map Prod.fst⟩

/-- `apply_revocation_update` up to its first write; there may be nothing to write. -/
def prepare (host : Host P) (memory : Memory P) (now : Int) (signed : SignedRevocationUpdate) :
    Except ApiError (Option (Prepared P)) := do
  (signed.verify P host.authorityId).mapError ApiError.unauthorized
  let delta ← (validateRevocations P signed.update host.audience).mapError ApiError.badRequest
  if signed.update.version < memory.current.version then
    .error (ApiError.conflict ("revocation version " ++ toString signed.update.version ++
      " is older than current version " ++ toString memory.current.version))
  else if signed.update.version = memory.current.version then
    prepareReapply P host memory now signed.update
  else prepareAccumulate P host memory now signed.update delta

variable {P} in
def Prepared.writes (failure : Option (PersistStep × String)) (p : Prepared P) :
    List (Write P) × Except ApiError Unit :=
  match persistRevocationState P failure p.update with
  | (writes, .error e) => (writes, .error (ApiError.internal e))
  | (writes, .ok ()) => (writes ++ (.storeIndex p.update p.index :: p.dropped.map .disconnect ++
      [.storeCurrent p.update]), .ok ())

/-- The writes of `apply_revocation_update`, and its result. -/
def updateWrites (host : Host P) (memory : Memory P) (now : Int)
    (failure : Option (PersistStep × String)) (signed : SignedRevocationUpdate) :
    List (Write P) × Except ApiError Unit :=
  match prepare P host memory now signed with
  | .error e => ([], .error e)
  | .ok none => ([], .ok ())
  | .ok (some p) => p.writes failure

/-! ## The machine -/

/-- A Relay with the update that it is busy with. -/
structure Machine where
  host : Host P
  /-- The content of the temporary file, when it is complete. -/
  tmp : Option RevocationUpdate
  /-- The writes that the update has still to make; it holds the mutex until there are none. -/
  pending : List (Write P)
  /-- The updates behind every index that has been active. -/
  activated : List RevocationUpdate

variable {P}

/-- A change of the memory of a running Relay. -/
def Host.updateMemory (host : Host P) (f : Memory P → Memory P) : Host P :=
  { host with process := host.process.map f }

def Machine.write (m : Machine P) : Write P → Machine P
  | .tmp content => { m with tmp := content }
  | .rename =>
    match m.tmp with
    | some update => { m with host := { m.host with file := some update }, tmp := none }
    | none => m
  | .storeIndex update revoked => { m with
      host := m.host.updateMemory (fun memory => { memory with revoked })
      activated := update :: m.activated }
  | .disconnect endpointId => { m with
      host := m.host.updateMemory (fun memory =>
        { memory with sessions := Relay.disconnect endpointId memory.sessions }) }
  | .storeCurrent update =>
    { m with host := m.host.updateMemory (fun memory => { memory with current := update }) }

/-- One step of the machine. The clock shows any time at any step. -/
inductive Machine.Step : Machine P → Machine P → Prop
  /-- An update takes the mutex and comes to its first write. -/
  | update (m : Machine P) (memory : Memory P) (now : Int) (failure : Option (PersistStep × String))
      (signed : SignedRevocationUpdate) (running : m.host.process = some memory)
      (idle : m.pending = []) :
      Step m { m with pending := (updateWrites P m.host memory now failure signed).1 }
  | write (m : Machine P) (w : Write P) (rest : List (Write P)) (next : m.pending = w :: rest) :
      Step m { m.write w with pending := rest }
  /-- A connection comes or goes, or the enrollment is revoked, also between two writes. -/
  | host (m : Machine P) (now : Int) (host : Host P) (step : Host.Step now m.host host)
      (running : m.host.process ≠ none) (runs : host.process ≠ none) : Step m { m with host }
  /-- The process stops; the temporary file may be lost. -/
  | crash (m : Machine P) (tmp : Option RevocationUpdate) :
      Step m { m with host := { m.host with process := none }, tmp, pending := [] }
  /-- A start that gets as far as `revocations.json`. -/
  | initialise (m : Machine P) (now : Int) (stopped : m.host.process = none)
      (named : trimIsEmpty m.host.audience = false) :
      Step m { m with host := { m.host with file := some (loadOrInitialize P m.host now) } }
  | start (m : Machine P) (now : Int) (host : Host P) (memory : Memory P)
      (stopped : m.host.process = none) (started : Relay.start P m.host now = .ok host)
      (running : host.process = some memory) :
      Step m { m with host, activated := memory.current :: m.activated }

/-- All runs of a Relay, write by write. -/
def machine (P : Platform) : System (Machine P) where
  init := fun m => m.host.Fresh ∧ m.pending = [] ∧ m.activated = []
  step := Machine.Step

/-! ## The writes together are the update -/

variable {host : Host P} {memory : Memory P} {now : Int} {failure : Option (PersistStep × String)}
  {signed : SignedRevocationUpdate} {m : Machine P}

/-- The Relay when everything has been written. -/
def Prepared.apply (p : Prepared P) (host : Host P) (memory : Memory P) : Host P :=
  { host with
    file := some p.update
    process := some { memory with
      current := p.update
      revoked := p.index
      sessions := p.dropped.foldl (fun sessions id => disconnect id sessions) memory.sessions } }

/-- What an update leaves when its writes are one step that may fail. -/
def finish (host : Host P) (memory : Memory P) (ioError : Option String) :
    Option (Prepared P) → Except ApiError (Host P)
  | none => .ok host
  | some p => do
    ensure (ioError = none) (ApiError.internal (ioError.getD ""))
    return p.apply host memory

theorem reapply_eq (ioError : Option String) (update : RevocationUpdate) :
    reapply P host memory now ioError update =
      prepareReapply P host memory now update >>= finish host memory ioError := by
  unfold reapply prepareReapply
  rw [bind_assoc]
  refine bind_congr (fun _ => ?_)
  split
  · simp only [bind_assoc, pure_bind]
    rfl
  · rfl

/-- The loop that disconnects, as a list of endpoints to disconnect. -/
theorem disconnectRevoked_eq (old delta : RevocationIndex P) (sessions : List (Session P)) :
    disconnectRevoked old now delta sessions =
      ((delta.filter (fun entry => now < entry.2.2 ∧ revokedThrough old entry.1 now < entry.2.1)).map
        Prod.fst).foldl (fun sessions id => disconnect id sessions) sessions := by
  unfold disconnectRevoked
  induction delta generalizing sessions with
  | nil => rfl
  | cons entry rest ih =>
    by_cases hnew : now < entry.2.2 ∧ revokedThrough old entry.1 now < entry.2.1
    · rw [List.foldl_cons, ih, if_pos hnew]
      simp [hnew]
    · rw [List.foldl_cons, ih, if_neg hnew]
      simp [hnew]

theorem accumulate_eq (ioError : Option String) (update : RevocationUpdate)
    (delta : RevocationIndex P) :
    accumulate P host memory now ioError update delta =
      prepareAccumulate P host memory now update delta >>= finish host memory ioError := by
  unfold accumulate prepareAccumulate
  simp only [bind_assoc, pure_bind, disconnectRevoked_eq]
  rfl

theorem applyRevocationUpdate_prepare (ioError : Option String) :
    applyRevocationUpdate P host memory now ioError signed =
      prepare P host memory now signed >>= finish host memory ioError := by
  unfold applyRevocationUpdate prepare
  rw [bind_assoc]
  refine bind_congr (fun _ => ?_)
  rw [bind_assoc]
  refine bind_congr (fun delta => ?_)
  split
  · rfl
  · split
    · exact reapply_eq ioError signed.update
    · exact accumulate_eq ioError signed.update delta

/-- Writes to the temporary file alone leave the Relay as it is. -/
theorem foldl_tmp {ws : List (Write P)} (h : ∀ w ∈ ws, ∃ content, w = .tmp content) :
    (ws.foldl Machine.write m).host = m.host := by
  induction ws generalizing m with
  | nil => rfl
  | cons w rest ih =>
    rw [List.forall_mem_cons] at h
    obtain ⟨content, rfl⟩ := h.1
    rw [List.foldl_cons, ih h.2]
    rfl

/-- An update that fails to persist has written to the temporary file alone. -/
theorem Prepared.writes_of_failure (p : Prepared P) (failed : PersistStep × String) :
    (∀ w ∈ (p.writes (some failed)).1, ∃ content, w = .tmp content) ∧
      (p.writes (some failed)).2 = .error (ApiError.internal failed.2) := by
  obtain ⟨step, e⟩ := failed
  cases step <;> simp [Prepared.writes, persistRevocationState]

theorem foldl_disconnect (hrun : m.host.process = some memory) (ids : List (EndpointId P)) :
    (ids.map Write.disconnect).foldl Machine.write m = { m with
      host := { m.host with process := some { memory with
        sessions := ids.foldl (fun sessions id => disconnect id sessions) memory.sessions } } } := by
  induction ids generalizing m memory with
  | nil => rw [List.map_nil, List.foldl_nil, List.foldl_nil, ← hrun]
  | cons id ids ih =>
    have hnext : (m.write (.disconnect id)).host.process = some { memory with
        sessions := disconnect id memory.sessions } := by
      rw [Machine.write, Host.updateMemory, hrun, Option.map_some]
    rw [List.map_cons, List.foldl_cons, List.foldl_cons, ih hnext]
    rfl

/-- The writes of a successful update. -/
theorem foldl_writes (hrun : m.host.process = some memory) (p : Prepared P) :
    ((p.writes none).1.foldl Machine.write m).host = p.apply m.host memory := by
  have hsplit : (p.writes none).1 =
      [.tmp none, .tmp (some p.update), .rename, .storeIndex p.update p.index] ++
        p.dropped.map .disconnect ++ [.storeCurrent p.update] := rfl
  have hindex : ([.tmp none, .tmp (some p.update), .rename, .storeIndex p.update p.index].foldl
      Machine.write m).host.process = some { memory with revoked := p.index } := by
    show m.host.process.map (fun memory => { memory with revoked := p.index }) = _
    rw [hrun, Option.map_some]
  rw [hsplit, List.foldl_append, List.foldl_append, foldl_disconnect hindex]
  rfl

/-- **The writes together are the update**, with the error of the step that failed. -/
theorem applyRevocationUpdate_eq (hrun : m.host.process = some memory) :
    applyRevocationUpdate P m.host memory now (failure.map Prod.snd) signed =
      (updateWrites P m.host memory now failure signed).2.map (fun _ =>
        ((updateWrites P m.host memory now failure signed).1.foldl Machine.write m).host) := by
  rw [applyRevocationUpdate_prepare]
  unfold updateWrites
  cases prepare P m.host memory now signed with
  | error e => rfl
  | ok prepared =>
    cases prepared with
    | none => rfl
    | some p =>
      cases failure with
      | none =>
        dsimp only
        rw [foldl_writes hrun]
        rfl
      | some failed =>
        rw [(p.writes_of_failure failed).2]
        rfl

/-! ## What an update does -/

/-- The memory and the file after an update that was accepted: nothing newer is lost, the three copies
    agree, and what the update brings and what was there before and has not expired is covered. -/
structure Absorbs (update : RevocationUpdate) (now : Int) (before after : Memory P)
    (file : Option RevocationUpdate) : Prop where
  version : before.current.version ≤ after.current.version
  file : file = some after.current
  index : ∀ entry, entry ∈ after.revoked ↔
    ∃ r ∈ after.current.revocations, revocationEntry P r = some entry
  contains : ∀ r ∈ update.revocations, r ∈ after.current.revocations ∨
    (update.version = before.current.version ∧ r.expiresAt ≤ now)
  keeps : ∀ r ∈ before.current.revocations, now < r.expiresAt → r ∈ after.current.revocations ∨
    ∃ r' ∈ after.current.revocations, parseEndpointId P r'.endpointId = parseEndpointId P r.endpointId ∧
      r.revokedThroughGeneration ≤ r'.revokedThroughGeneration

/-- The three copies agree. -/
structure Host.Agrees (host : Host P) (memory : Memory P) : Prop where
  running : host.process = some memory
  file : host.file = some memory.current
  index : validateRevocations P memory.current host.audience = .ok memory.revoked

variable {ioError : Option String} {host' : Host P}

/-- An update that brings nothing new prunes what has expired, if anything. -/
theorem reapply_absorbs {update : RevocationUpdate} (hagrees : host.Agrees memory)
    (hversion : update.version = memory.current.version)
    (h : reapply P host memory now ioError update = .ok host') :
    ∃ memory', host'.Agrees memory' ∧ host'.audience = host.audience ∧
      Absorbs update now memory memory' host'.file := by
  obtain ⟨hknown, rfl | ⟨active, hactive, rfl⟩⟩ := reapply_eq_ok h
  · exact ⟨memory, hagrees, rfl, le_rfl, hagrees.file, fun entry => mem_index hagrees.index,
      fun r hr => .inl (hknown r hr), fun r hr _ => .inl hr⟩
  · refine ⟨_, ⟨rfl, rfl, hactive⟩, rfl, le_rfl, rfl, fun entry => mem_index hactive, ?_, ?_⟩
    · intro r hr
      by_cases hlive : now < r.expiresAt
      · exact .inl (List.mem_filter.2 ⟨hknown r hr, decide_eq_true hlive⟩)
      · exact .inr ⟨hversion, not_lt.1 hlive⟩
    · exact fun r hr hlive => .inl (List.mem_filter.2 ⟨hr, decide_eq_true hlive⟩)

/-- A newer update is merged into what has not expired. -/
theorem accumulate_absorbs {update : RevocationUpdate} {delta : RevocationIndex P}
    (hagrees : host.Agrees memory) (hvalid : validateRevocations P update host.audience = .ok delta)
    (hversion : memory.current.version < update.version)
    (h : accumulate P host memory now ioError update delta = .ok host') :
    ∃ memory', host'.Agrees memory' ∧ host'.audience = host.audience ∧
      Absorbs update now memory memory' host'.file := by
  obtain ⟨_, _, _, merged, next, hmerged, hnext, rfl⟩ := accumulate_eq_ok.1 h
  have hold := distinct_parsed hagrees.index
  have hreceived := distinct_parsed hvalid
  have hparses : ∀ r ∈ update.revocations, ∃ id, parseEndpointId P r.endpointId = some id :=
    (validate_eq_ok.1 (validateRevocations_eq_ok.1 hvalid).1).2.2.2
  have hcontains : ∀ r ∈ update.revocations, r ∈ (accumulated update merged).revocations := by
    intro r hr
    obtain ⟨id, hid⟩ := hparses r hr
    exact mem_accumulated.2 ⟨id, (mem_merged hold hreceived hmerged).2 ⟨hid, .inl hr⟩⟩
  refine ⟨_, ⟨rfl, rfl, hnext⟩, rfl, le_of_lt hversion, rfl, fun entry => mem_index hnext,
    fun r hr => .inl (hcontains r hr), ?_⟩
  intro r hr hlive
  obtain ⟨id, hid⟩ := (validate_eq_ok.1 (validateRevocations_eq_ok.1 hagrees.index).1).2.2.2 r hr
  by_cases hnew : ∃ r' ∈ update.revocations, parseEndpointId P r'.endpointId = some id
  · obtain ⟨r', hr', hid'⟩ := hnew
    refine .inr ⟨r', hcontains r' hr', hid'.trans hid.symm, ?_⟩
    -- the received revocation was compared with the one it replaces
    obtain ⟨id'', hid'', hforward⟩ := ((foldAll_mergeRevocation_eq_ok hreceived).1 hmerged).1 r' hr'
    cases hid'.symm.trans hid''
    exact hforward (id, r) ((Keyed.lookup_eq_some (distinct_activeRevocations _ _)).2
      ⟨(mem_activeRevocations hold).2 ⟨hr, hlive, hid⟩, rfl⟩)
  · refine .inl (mem_accumulated.2 ⟨id, (mem_merged hold hreceived hmerged).2 ⟨hid, .inr ⟨hr, hlive, ?_⟩⟩⟩)
    exact fun r' hr' hid' => hnew ⟨r', hr', hid'⟩

theorem applyRevocationUpdate_absorbs (hagrees : host.Agrees memory)
    (h : applyRevocationUpdate P host memory now ioError signed = .ok host') :
    ∃ memory', host'.Agrees memory' ∧ host'.audience = host.audience ∧
      Absorbs signed.update now memory memory' host'.file := by
  obtain ⟨_, delta, hvalid, ⟨heq, h⟩ | ⟨hlt, h⟩⟩ := applyRevocationUpdate_eq_ok.1 h
  · exact reapply_absorbs hagrees heq h
  · exact accumulate_absorbs hagrees hvalid hlt h

/-! ## What a crash leaves -/

variable (P) in
/-- What the writes of an update are about. -/
structure Data where
  audience : String
  file : Option RevocationUpdate
  tmp : Option RevocationUpdate
  /-- The update behind the mutex and the index, while the Relay runs. -/
  memory : Option (RevocationUpdate × RevocationIndex P)
  activated : List RevocationUpdate

def Machine.data (m : Machine P) : Data P :=
  ⟨m.host.audience, m.host.file, m.tmp,
    m.host.process.map (fun memory => (memory.current, memory.revoked)), m.activated⟩

def Data.write (d : Data P) : Write P → Data P
  | .tmp content => { d with tmp := content }
  | .rename =>
    match d.tmp with
    | some update => { d with file := some update, tmp := none }
    | none => d
  | .storeIndex update revoked => { d with
      memory := d.memory.map (fun memory => (memory.1, revoked)), activated := update :: d.activated }
  | .disconnect _ => d
  | .storeCurrent update => { d with memory := d.memory.map (fun memory => (update, memory.2)) }

theorem data_write (m : Machine P) (w : Write P) : (m.write w).data = m.data.write w := by
  cases w with
  | tmp content => rfl
  | rename =>
    cases htmp : m.tmp <;> simp [Machine.write, Data.write, Machine.data, htmp]
  | storeIndex update revoked =>
    cases hrun : m.host.process <;>
      simp [Machine.write, Data.write, Machine.data, Host.updateMemory, hrun]
  | disconnect endpointId =>
    cases hrun : m.host.process <;>
      simp [Machine.write, Data.write, Machine.data, Host.updateMemory, hrun]
  | storeCurrent update =>
    cases hrun : m.host.process <;>
      simp [Machine.write, Data.write, Machine.data, Host.updateMemory, hrun]

/-- The file is valid and at least as new as every index that has been active. -/
structure Durable (d : Data P) : Prop where
  valid : ∀ file, d.file = some file → ∃ index, validateRevocations P file d.audience = .ok index
  covers : ∀ update ∈ d.activated, ∃ file, d.file = some file ∧ update.version ≤ file.version
  named : d.activated ≠ [] ∨ d.memory ≠ none → trimIsEmpty d.audience = false

/-- No update is under way, and the three copies agree. -/
structure Settled (d : Data P) : Prop extends Durable d where
  agrees : ∀ current revoked, d.memory = some (current, revoked) →
    d.file = some current ∧ validateRevocations P current d.audience = .ok revoked

variable {d : Data P}

theorem Settled.tmp (h : Settled d) (content : Option RevocationUpdate) :
    Settled (d.write (.tmp content)) :=
  ⟨⟨h.valid, h.covers, h.named⟩, h.agrees⟩

theorem foldl_disconnect_data (ids : List (EndpointId P)) :
    (ids.map Write.disconnect).foldl Data.write d = d := by
  induction ids with
  | nil => rfl
  | cons id ids ih => exact ih

/-- A prepared update: what it writes is valid and not older than what is there. -/
structure Prepared.Fits (p : Prepared P) (d : Data P) : Prop where
  valid : validateRevocations P p.update d.audience = .ok p.index
  newer : ∃ current revoked, d.memory = some (current, revoked) ∧ current.version ≤ p.update.version

def Prepared.renamed (p : Prepared P) (d : Data P) : Data P :=
  { d with file := some p.update, tmp := none }

/-- After the rename and the store of the index. -/
def Prepared.indexed (p : Prepared P) (d : Data P) : Data P :=
  (p.renamed d).write (.storeIndex p.update p.index)

section Stages

variable {p : Prepared P} (h : p.Fits d) (hs : Settled d)

include h hs

theorem Prepared.Fits.named : trimIsEmpty d.audience = false := by
  obtain ⟨current, revoked, hmemory, _⟩ := h.newer
  exact hs.named (.inr (by simp [hmemory]))

/-- The new file covers every index that has been active. -/
theorem Prepared.Fits.covers : ∀ update ∈ d.activated, update.version ≤ p.update.version := by
  intro update hupdate
  obtain ⟨current, revoked, hmemory, hversion⟩ := h.newer
  obtain ⟨file, hfile, hle⟩ := hs.covers update hupdate
  cases (hs.agrees current revoked hmemory).1.symm.trans hfile
  exact hle.trans hversion

theorem Prepared.Fits.renamed : Durable (p.renamed d) where
  valid _ hfile := ⟨p.index, Option.some.inj hfile ▸ h.valid⟩
  covers update hupdate := ⟨p.update, rfl, h.covers hs update hupdate⟩
  named := hs.named

/-- The new index is active only when the new file is in place. -/
theorem Prepared.Fits.indexed : Durable (p.indexed d) where
  valid := (h.renamed hs).valid
  covers update hupdate := by
    refine ⟨p.update, rfl, ?_⟩
    rcases List.mem_cons.1 hupdate with rfl | hold
    · exact le_rfl
    · exact h.covers hs update hold
  named _ := h.named hs

theorem Prepared.Fits.stored : Settled ((p.indexed d).write (.storeCurrent p.update)) := by
  obtain ⟨current, revoked, hmemory, _⟩ := h.newer
  refine ⟨⟨(h.indexed hs).valid, (h.indexed hs).covers, fun _ => h.named hs⟩, ?_⟩
  intro current' revoked' hmemory'
  simp only [Prepared.indexed, Prepared.renamed, Data.write, hmemory, Option.map_some,
    Option.some.injEq, Prod.mk.injEq] at hmemory'
  obtain ⟨rfl, rfl⟩ := hmemory'
  exact ⟨rfl, h.valid⟩

/-- The writes of a prepared update, from a settled state: the file stays durable, and the state is
    settled again when they are done. -/
theorem Prepared.Fits.writes : Safe Data.write Durable d (p.writes failure).1 ∧
    Settled ((p.writes failure).1.foldl Data.write d) := by
  cases failure with
  | some failed =>
    have hsafe : Safe Data.write Settled d (p.writes (some failed)).1 := by
      refine safe_of_preserves (fun d w hw hd => ?_) hs
      obtain ⟨content, rfl⟩ := (p.writes_of_failure failed).1 w hw
      exact hd.tmp content
    exact ⟨hsafe.mono (fun _ h => h.toDurable), hsafe.done⟩
  | none =>
    have hfirst : Safe Data.write Durable d
        [.tmp none, .tmp (some p.update), .rename, .storeIndex p.update p.index] :=
      ⟨hs.toDurable, (hs.tmp none).toDurable, ((hs.tmp none).tmp (some p.update)).toDurable,
        h.renamed hs, h.indexed hs⟩
    have hdropped : Safe Data.write Durable (p.indexed d) (p.dropped.map .disconnect) := by
      refine safe_of_preserves (fun d w hw hd => ?_) (h.indexed hs)
      obtain ⟨id, _, rfl⟩ := List.mem_map.1 hw
      exact hd
    have hlast : Safe Data.write Durable (p.indexed d) [.storeCurrent p.update] :=
      ⟨h.indexed hs, (h.stored hs).toDurable⟩
    have hsplit : (p.writes none).1 =
        [.tmp none, .tmp (some p.update), .rename, .storeIndex p.update p.index] ++
          (p.dropped.map .disconnect ++ [.storeCurrent p.update]) := rfl
    rw [hsplit, List.foldl_append, List.foldl_append]
    refine ⟨hfirst.append (hdropped.append ?_), ?_⟩
    · rw [foldl_disconnect_data]
      exact hlast
    · exact (foldl_disconnect_data (d := p.indexed d) p.dropped).symm ▸ h.stored hs

end Stages

theorem prepare_fits (hagrees : m.host.Agrees memory) {p : Prepared P}
    (h : prepare P m.host memory now signed = .ok (some p)) : p.Fits m.data := by
  have happlied : applyRevocationUpdate P m.host memory now none signed =
      .ok (p.apply m.host memory) := by
    rw [applyRevocationUpdate_prepare, h]
    rfl
  obtain ⟨memory', hagrees', _, habsorbs⟩ := applyRevocationUpdate_absorbs hagrees happlied
  obtain rfl := Option.some.inj hagrees'.running
  refine ⟨hagrees'.index, memory.current, memory.revoked, ?_, habsorbs.version⟩
  rw [Machine.data, hagrees.running]
  rfl

theorem Settled.host_agrees (h : Settled m.data) (hrun : m.host.process = some memory) :
    m.host.Agrees memory := by
  obtain ⟨hfile, hindex⟩ := h.agrees memory.current memory.revoked (by rw [Machine.data, hrun]; rfl)
  exact ⟨hrun, hfile, hindex⟩

theorem updateWrites_safe (hs : Settled m.data) (hrun : m.host.process = some memory) :
    Safe Data.write Durable m.data (updateWrites P m.host memory now failure signed).1 ∧
      Settled ((updateWrites P m.host memory now failure signed).1.foldl Data.write m.data) := by
  unfold updateWrites
  cases hprepare : prepare P m.host memory now signed with
  | error e => exact ⟨hs.toDurable, hs⟩
  | ok prepared =>
    cases prepared with
    | none => exact ⟨hs.toDurable, hs⟩
    | some p => exact (prepare_fits (hs.host_agrees hrun) hprepare).writes hs

/-! ## Runs -/

/-- What holds at any point of a run. -/
structure Machine.Sound (m : Machine P) : Prop where
  durable : Safe Data.write Durable m.data m.pending
  settles : Settled (m.pending.foldl Data.write m.data)
  stopped : m.host.process = none → m.pending = []

theorem Machine.Sound.durable_now (h : m.Sound) : Durable m.data := h.durable.cut 0

theorem Machine.Sound.settled (h : m.Sound) (hidle : m.pending = []) : Settled m.data := by
  have hsettles := h.settles
  rwa [hidle] at hsettles

theorem connect_revocations (host : Host P) (memory : Memory P) (now : Int)
    (endpointId : EndpointId P) (token : Option String) :
    (connect P host memory now endpointId token).current = memory.current ∧
      (connect P host memory now endpointId token).revoked = memory.revoked := by
  unfold connect
  split <;> exact ⟨rfl, rfl⟩

/-- Connections and the revocation of the enrollment leave the revocations alone. -/
theorem Host.Step.data_eq (h : Host.Step now m.host host') (hrun : m.host.process ≠ none)
    (hruns : host'.process ≠ none) :
    { m with host := host' }.data = m.data := by
  cases h with
  | connect memory endpointId token running =>
    obtain ⟨hcurrent, hrevoked⟩ := connect_revocations m.host memory now endpointId token
    simp [Machine.data, running, hcurrent, hrevoked]
  | leave memory session running => simp [Machine.data, running]
  | crash => exact absurd rfl hruns
  | start _ stopped => exact absurd stopped hrun
  | revokeAll memory written running => simp [Machine.data, Relay.revokeAll, running]

theorem write_process (m : Machine P) (w : Write P) :
    (m.write w).host.process = none ↔ m.host.process = none := by
  cases w with
  | rename => cases htmp : m.tmp <;> simp [Machine.write, htmp]
  | tmp | storeIndex | disconnect | storeCurrent => simp [Machine.write, Host.updateMemory]

/-- A stopped Relay is settled when its file is durable. -/
theorem Durable.settled (h : Durable d) (hstopped : d.memory = none) : Settled d :=
  ⟨h, fun current revoked hmemory => absurd (hstopped.symm.trans hmemory) (by simp)⟩

/-- The state of a Relay that has never applied an update is valid. -/
theorem loadOrInitialize_valid (h : Durable m.data) (hnamed : trimIsEmpty m.host.audience = false)
    (now : Int) :
    ∃ index, validateRevocations P (loadOrInitialize P m.host now) m.host.audience = .ok index := by
  unfold loadOrInitialize
  cases hfile : m.host.file with
  | some file => exact h.valid file hfile
  | none =>
    refine ⟨[], validateRevocations_eq_ok.2 ⟨validate_eq_ok.2 ⟨rfl, ?_, by simp, by simp⟩, rfl, rfl,
      List.nodup_nil⟩⟩
    rintro (hempty : m.host.audience = "")
    rw [hempty] at hnamed
    exact absurd hnamed (by decide)

/-- What is loaded is at least as new as every index that has been active. -/
theorem loadOrInitialize_covers (h : Durable m.data) (now : Int) :
    ∀ update ∈ m.activated, update.version ≤ (loadOrInitialize P m.host now).version := by
  intro update hupdate
  obtain ⟨file, hfile, hle⟩ := h.covers update hupdate
  rw [loadOrInitialize, show m.host.file = some file from hfile, Option.getD_some]
  exact hle

/-- A start that gets as far as `revocations.json` keeps what is there. -/
theorem Durable.initialise (h : Durable m.data) (named : trimIsEmpty m.host.audience = false)
    (now : Int) : Durable ({ m with
      host := { m.host with file := some (loadOrInitialize P m.host now) } } : Machine P).data where
  valid _ hfile := Option.some.inj hfile ▸ loadOrInitialize_valid h named now
  covers update hupdate := ⟨_, rfl, loadOrInitialize_covers h now update hupdate⟩
  named _ := named

/-- A Relay that has started has the revocations of its file, and its index is the newest. -/
theorem Durable.start (h : Durable m.data) (started : Relay.start P m.host now = .ok host)
    (running : host.process = some memory) :
    Settled ({ m with host, activated := memory.current :: m.activated } : Machine P).data := by
  obtain ⟨_, hnamed, started⟩ := of_bind started
  obtain ⟨_, _, started⟩ := of_bind started
  obtain ⟨revoked, hvalid, started⟩ := of_bind started
  cases started
  cases running
  refine ⟨⟨?_, ?_, fun _ => ensure_eq_ok.1 hnamed⟩, ?_⟩
  · exact fun file hfile => Option.some.inj hfile ▸ ⟨revoked, hvalid⟩
  · intro update hupdate
    refine ⟨_, rfl, ?_⟩
    rcases List.mem_cons.1 hupdate with rfl | hold
    · exact le_rfl
    · exact loadOrInitialize_covers h now update hold
  · intro current' revoked' hmemory
    cases hmemory
    exact ⟨rfl, hvalid⟩

theorem Machine.Sound.step {m' : Machine P} (h : m.Sound) (hstep : m.Step m') : m'.Sound := by
  have hdurable := h.durable_now
  cases hstep with
  | update memory now failure signed running idle =>
    obtain ⟨hsafe, hsettles⟩ := updateWrites_safe (h.settled idle) running
    exact ⟨hsafe, hsettles, fun hstopped => absurd (running.symm.trans hstopped) (by simp)⟩
  | write w rest next =>
    have hsafe := h.durable
    have hsettles := h.settles
    rw [next] at hsafe hsettles
    have hdata : { m.write w with pending := rest }.data = m.data.write w := data_write m w
    refine ⟨?_, ?_, fun hstopped => ?_⟩
    · rw [hdata]
      exact hsafe.2
    · rw [hdata]
      exact hsettles
    · have hnil := h.stopped ((write_process m w).1 hstopped)
      cases next.symm.trans hnil
  | host now host step running runs =>
    -- the writes that are left meet the same data
    have hdata : { m with host := host }.data = m.data := step.data_eq running runs
    exact ⟨hdata ▸ h.durable, hdata ▸ h.settles, fun hstopped => absurd hstopped runs⟩
  | crash tmp =>
    -- whatever has been written, the file alone is what counts, and it is durable
    have hleft : Durable ({ m with
        host := { m.host with process := none }, tmp, pending := [] } : Machine P).data :=
      ⟨hdurable.valid, hdurable.covers, fun hnamed => hdurable.named (.inl (hnamed.resolve_right (by
        simp [Machine.data])))⟩
    exact ⟨hleft, hleft.settled rfl, fun _ => rfl⟩
  | initialise now stopped named =>
    have hidle := h.stopped stopped
    have hnext := hdurable.initialise named now
    have hsettled := hnext.settled (by simp [Machine.data, stopped])
    exact ⟨hidle ▸ hnext, hidle ▸ hsettled, h.stopped⟩
  | start now host memory stopped started running =>
    have hidle := h.stopped stopped
    have hnext := hdurable.start started running
    exact ⟨hidle ▸ hnext.toDurable, hidle ▸ hnext, fun _ => hidle⟩

theorem sound_of_reachable {m : Machine P} (h : (machine P).Reachable m) : m.Sound := by
  refine h.invariant (fun m hm => ?_) (fun m m' _ hm hstep => hm.step hstep)
  obtain ⟨⟨hfile, _, hprocess⟩, hpending, hactivated⟩ := hm
  have hfresh : Durable m.data := by
    refine ⟨?_, ?_, ?_⟩
    · simp [Machine.data, hfile]
    · simp [Machine.data, hactivated]
    · simp [Machine.data, hactivated, hprocess]
  have hsettled := hfresh.settled (by simp [Machine.data, hprocess])
  exact ⟨hpending ▸ hfresh, hpending ▸ hsettled, fun _ => hpending⟩

/-! ## Atomicity and durability -/

/-- An update that is refused, or that fails, has left the Relay as it was. -/
theorem updateWrites_of_error {e : ApiError}
    (h : (updateWrites P host memory now failure signed).2 = .error e) :
    ∀ w ∈ (updateWrites P host memory now failure signed).1, ∃ content, w = .tmp content := by
  unfold updateWrites at h ⊢
  cases hprepare : prepare P host memory now signed with
  | error e => simp
  | ok prepared =>
    rw [hprepare] at h
    cases prepared with
    | none => cases h
    | some p =>
      cases failure with
      | none => exact absurd h (by simp [Prepared.writes, persistRevocationState])
      | some failed => exact (p.writes_of_failure failed).1

/-- A restart loads what the file holds. -/
theorem start_covers (h : m.Sound) (hactive : m.activated ≠ []) (hmarker : m.host.marker = false)
    (now : Int) : ∃ host' memory', start P { m.host with process := none } now = .ok host' ∧
      host'.Agrees memory' ∧ ∀ update ∈ m.activated, update.version ≤ memory'.current.version := by
  have hdurable := h.durable_now
  have hnamed : trimIsEmpty m.host.audience = false := hdurable.named (.inl hactive)
  obtain ⟨revoked, hvalid⟩ := loadOrInitialize_valid hdurable hnamed now
  refine ⟨_, ⟨loadOrInitialize P m.host now, revoked, [], false⟩, bind_ok (ensure_of hnamed)
    (bind_ok (ensure_of hmarker) (bind_ok hvalid rfl)), ⟨rfl, rfl, hvalid⟩, ?_⟩
  exact loadOrInitialize_covers hdurable now

/-- **A revocation update is atomic and durable.** In every state that a Relay reaches, whatever update
    it gets, whatever its clock shows and wherever writing the file fails: after an error the Relay, with
    its file, its index and what is behind the mutex, is as it was; after a success the three agree,
    nothing is older, and the revocations of the update and those held before are covered, but for
    expired ones. If the process stops at any point and its enrollment is not revoked, it starts again
    with a state at least as new as every index that has been active. -/
theorem revocation_update_is_atomic_and_durable (m : Machine P) (hm : (machine P).Reachable m) :
    (∀ memory now failure signed, m.host.process = some memory → m.pending = [] →
      let after := (updateWrites P m.host memory now failure signed).1.foldl Machine.write m
      (∀ e, (updateWrites P m.host memory now failure signed).2 = .error e → after.host = m.host) ∧
      ((updateWrites P m.host memory now failure signed).2 = .ok () → ∃ memory',
        after.host.process = some memory' ∧
          Absorbs signed.update now memory memory' after.host.file)) ∧
    (m.activated ≠ [] → m.host.marker = false → ∀ now, ∃ host' memory',
      start P { m.host with process := none } now = .ok host' ∧ host'.process = some memory' ∧
        ∀ update ∈ m.activated, update.version ≤ memory'.current.version) := by
  have hsound := sound_of_reachable hm
  refine ⟨?_, ?_⟩
  · intro memory now failure signed hrun hidle
    have hagrees := (hsound.settled hidle).host_agrees hrun
    refine ⟨fun e he => foldl_tmp (updateWrites_of_error he), fun hok => ?_⟩
    have happlied : applyRevocationUpdate P m.host memory now (failure.map Prod.snd) signed = .ok
        ((updateWrites P m.host memory now failure signed).1.foldl Machine.write m).host := by
      rw [applyRevocationUpdate_eq hrun, hok]
      rfl
    obtain ⟨memory', hagrees', _, habsorbs⟩ := applyRevocationUpdate_absorbs hagrees happlied
    exact ⟨memory', hagrees'.running, habsorbs⟩
  · intro hactive hmarker now
    obtain ⟨host', memory', hstart, hagrees, hcovers⟩ := start_covers hsound hactive hmarker now
    exact ⟨host', memory', hstart, hagrees.running, hcovers⟩

section Example

open Reference

/-- A Relay that has enrolled and never run. -/
def Machine.fresh (authorityId : EndpointId P) : Machine P :=
  ⟨⟨"agents", authorityId, none, false, none⟩, none, [], []⟩

/-- The removal of a client, written by a Relay that has just started. -/
theorem removal_is_written : ∃ (m : Machine clientPlatform) (memory memory' : Memory clientPlatform),
    (machine clientPlatform).Reachable m ∧ m.host.process = some memory ∧
      memory.current.version = 0 ∧ (removalUpdate 100).update.revocations.length = 1 ∧
      ((updateWrites clientPlatform m.host memory 100 none (removalUpdate 100)).1.foldl
        Machine.write m).host.process = some memory' ∧
      Absorbs (removalUpdate 100).update 100 memory memory'
        ((updateWrites clientPlatform m.host memory 100 none (removalUpdate 100)).1.foldl
          Machine.write m).host.file := by
  have hcheck : (start clientPlatform (Machine.fresh (controlKey.public _)).host 0).toOption.any
      (fun host => host.process.any (fun memory => memory.current.version = 0 &&
        (updateWrites clientPlatform host memory 100 none (removalUpdate 100)).2.toOption.isSome)) =
      true := by decide +kernel
  obtain ⟨host, hstart, hcheck⟩ := (Option.any_eq_true _ _).1 hcheck
  obtain ⟨memory, hrun, hcheck⟩ := (Option.any_eq_true _ _).1 hcheck
  rw [Bool.and_eq_true, decide_eq_true_iff, Option.isSome_iff_exists] at hcheck
  obtain ⟨hversion, _, hok⟩ := hcheck
  have hr : (machine clientPlatform).Reachable
      { Machine.fresh (controlKey.public _) with host, activated := [memory.current] } :=
    ⟨Machine.fresh (controlKey.public _), ⟨⟨rfl, rfl, rfl⟩, rfl, rfl⟩, .single
      (.start _ 0 host memory rfl (toOption_eq_some.1 hstart) hrun)⟩
  obtain ⟨memory', hrun', habsorbs⟩ := ((revocation_update_is_atomic_and_durable _ hr).1 memory 100 none
    (removalUpdate 100) hrun rfl).2 (toOption_eq_some.1 hok)
  exact ⟨_, memory, memory', hr, hrun, hversion, rfl, hrun', habsorbs⟩

end Example

end AgentScale.Relay
