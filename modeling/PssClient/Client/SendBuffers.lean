import PssClient.Client.Reports

/-!
# The copies of the messages

`do_write_immediately` copies its message into an array of its own (`new char[length]`), starts
`async_write` on the copy, and deletes it at the end of the handler. A client can be closed,
reconnected or given up meanwhile; the handler runs all the same.

* `SendBuffers` / `step` — a tracked client, with what has been allocated and what has been deleted.
  A copy has the number of its write.
* `Tags.writes` — the copies that operations still use. A write that has transferred only a part
  keeps its copy.
* `writes_after` — the ledger of a step: what was in use and what is allocated is deleted or in use.
* `each_freed_once` — the result. `exists_buffers`: the runs are those of the client.
-/

namespace PssClient

open Machine Pool

namespace Tags

variable {F : Type*} {g : Tags}

/-- The numbers of the writes among the operations. -/
def writesOf (tags : List OpTag) : List Nat :=
  (tags.filter fun tag => tag.kind = .write).map OpTag.serial

/-- The numbers of the writes that have not been handled to the end. -/
def writes (g : Tags) : List Nat := writesOf (g.outstanding ++ g.completed)

theorem perm_writesOf {tags tags' : List OpTag} (h : tags.Perm tags') :
    (writesOf tags).Perm (writesOf tags') := (h.filter _).map OpTag.serial

theorem writesOf_write {tag : OpTag} (h : tag.kind = .write) (tags : List OpTag) :
    writesOf (tag :: tags) = tag.serial :: writesOf tags := by
  rw [writesOf, List.filter_cons_of_pos (by simpa using h)]
  rfl

theorem writesOf_other {tag : OpTag} (h : tag.kind ≠ .write) (tags : List OpTag) :
    writesOf (tag :: tags) = writesOf tags := by
  rw [writesOf, List.filter_cons_of_neg (by simpa using h)]
  rfl

/-- A new operation is among them, whether the socket takes it or not. -/
theorem writes_launch (s : Client F) (tag : OpTag) (g : Tags) :
    (launch s tag g).writes.Perm (writesOf (tag :: (g.outstanding ++ g.completed))) := by
  unfold launch
  split
  · apply perm_writesOf
    show (g.outstanding ++ (g.completed ++ [tag])).Perm _
    rw [← List.append_assoc]
    exact List.perm_append_singleton tag _
  · apply perm_writesOf
    show (g.outstanding ++ [tag] ++ g.completed).Perm _
    rw [List.append_assoc]
    exact List.perm_middle

theorem writes_closeSocket (g : Tags) : (closeSocket g).writes.Perm g.writes := by
  have hperm : (g.completed ++ g.outstanding).Perm (g.outstanding ++ g.completed) :=
    List.perm_append_comm
  exact perm_writesOf hperm

theorem writes_startConnect (s : Client F) (g : Tags) :
    (startConnect s g).writes.Perm g.writes := by
  set tag : OpTag := ⟨g.serial, if s.busy then g.attempt else g.attempt + 1, .connect⟩ with htag
  have hops : (g.outstanding ++ [tag] ++ g.completed).Perm
      (tag :: (g.outstanding ++ g.completed)) := by
    rw [List.append_assoc]
    exact List.perm_middle
  have hwrites := perm_writesOf hops
  rw [writesOf_other (show OpKind.connect ≠ .write by decide)] at hwrites
  exact hwrites

theorem writes_reconnect (s : Client F) (g : Tags) : (reconnect s g).writes.Perm g.writes := by
  unfold reconnect
  split
  · exact writes_startConnect s g
  · exact .refl _

theorem writes_complete (i : Nat) (g : Tags) : (complete i g).writes.Perm g.writes := by
  unfold complete
  split
  case h_1 tag htag =>
    apply perm_writesOf
    show (g.outstanding.eraseIdx i ++ (g.completed ++ [tag])).Perm _
    rw [← List.append_assoc]
    exact (List.perm_append_singleton tag _).trans
      ((perm_eraseIdx htag).symm.append_right g.completed)
  case h_2 => exact .refl _

end Tags

/-- What the handler of a write deletes. -/
def Completion.freed (tag : OpTag) : Completion → List Nat
  | .sent rest sendLength => if rest.drop sendLength = [] then [tag.serial] else []
  | .writeFailed => [tag.serial]
  | _ => []

/-- **The handler takes the copy along or deletes it.** The completion is taken out of the queue;
behind a write that is done or has failed its copy is deleted, and a write that goes on keeps it. -/
theorem Tags.writes_handler {F : Type*} {s : Client F} {g : Tags} {i : Nat} {tag : OpTag}
    {c : Completion} (htag : g.completed[i]? = some tag) (hkind : c.kind = tag.kind) :
    g.writes.Perm (c.freed tag ++
      (handler s tag c { g with completed := g.completed.eraseIdx i }).writes) := by
  set g₁ : Tags := { g with completed := g.completed.eraseIdx i } with hg₁
  have hops : (g.outstanding ++ g.completed).Perm (tag :: (g₁.outstanding ++ g₁.completed)) :=
    ((perm_eraseIdx htag).append_left g.outstanding).trans List.perm_middle
  have hwrites := perm_writesOf hops
  -- closing moves what is outstanding, and a read has no copy
  have hclose : (if s.isClientClose = false then closeSocket g₁ else g₁).writes.Perm g₁.writes := by
    split
    · exact writes_closeSocket g₁
    · exact .refl _
  have hread : (startOp .read s g₁).writes.Perm g₁.writes := by
    have hlaunch := writes_launch s ⟨g₁.serial, g₁.attempt, .read⟩
      { g₁ with serial := g₁.serial + 1 }
    rw [writesOf_other (show OpKind.read ≠ .write by decide)] at hlaunch
    exact hlaunch
  have hother : c.kind ≠ .write → g.writes.Perm g₁.writes := fun hne => by
    rw [writesOf_other (hkind ▸ hne)] at hwrites
    exact hwrites
  cases c with
  | connected | received bytes => exact (hother (by simp [Completion.kind])).trans hread.symm
  | connectFailed => exact hother (by simp [Completion.kind])
  | readFailed => exact (hother (by simp [Completion.kind])).trans hclose.symm
  | writeFailed =>
    rw [writesOf_write hkind.symm] at hwrites
    exact hwrites.trans (hclose.symm.cons _)
  | sent rest sendLength =>
    show g.writes.Perm ((if rest.drop sendLength = [] then [tag.serial] else []) ++
      (if rest.drop sendLength = [] then g₁ else launch s tag g₁).writes)
    by_cases hdone : rest.drop sendLength = []
    · rw [if_pos hdone, if_pos hdone]
      rw [writesOf_write hkind.symm] at hwrites
      exact hwrites
    · rw [if_neg hdone, if_neg hdone]
      exact hwrites.trans (writes_launch s tag g₁).symm

/-- A tracked client with the copies that `new` has made and `delete[]` has freed. A copy is named
by the number of its write. -/
structure SendBuffers (F : Type*) where
  tracked : Tracked F
  allocated : List Nat := []
  freed : List Nat := []

namespace SendBuffers

variable {F : Type*} {fmt : IpacketFormat F}

/-- What `do_write_immediately` allocates, when it is called. -/
def allocates (t : Tracked F) : Client.Action → List Nat
  | .clientSendData _ _ => if t.client.registered = true then [t.tags.serial] else []
  | .clientSendFormatData _ _ _ =>
    if t.client.registered = true ∧ ¬ (t.client.transport = .tcp ∧ t.client.isConnect = false) then
      [t.tags.serial]
    else []
  | _ => []

/-- What the handlers delete. -/
def frees (t : Tracked F) (a : Client.Action) : List Nat :=
  (t.handles a).flatMap fun h => h.2.freed h.1

def step (fmt : IpacketFormat F) (s : SendBuffers F) (a : Client.Action) :
    Option (SendBuffers F) :=
  (Tracked.step fmt s.tracked a).map fun t =>
    { tracked := t
      allocated := s.allocated ++ allocates s.tracked a
      freed := s.freed ++ frees s.tracked a }

def start (transport : Transport) (connectId : Nat) (timerCheckSeconds : Int) (pf : F) :
    SendBuffers F where
  tracked := Tracked.start transport connectId timerCheckSeconds pf

/-- Every run of the client has its copies. -/
theorem exists_buffers {s : SendBuffers F} {c : Client F} {as : List Client.Action}
    (h : run (Client.step fmt) s.tracked.client as = some c) :
    ∃ s', run (step fmt) s as = some s' ∧ s'.tracked.client = c := by
  have hmap : ∀ (s : SendBuffers F) a,
      (step fmt s a).map tracked = Tracked.step fmt s.tracked a := fun s a => by
    rw [step, Option.map_map]
    exact Option.map_id'
  obtain ⟨t, ht, rfl⟩ := Tracked.exists_tracked h
  rw [← run_map tracked hmap] at ht
  obtain ⟨s', hs', rfl⟩ := Option.map_eq_some_iff.mp ht
  exact ⟨s', hs', rfl⟩

/-! ## The ledger -/

/-- **Nothing is lost and nothing freed twice.** As a permutation: what was in use together with
what a step allocates is what it deletes together with what is then in use. -/
theorem writes_after {t : Tracked F} {a : Client.Action} (h : Tracked.Aligned t) :
    (t.tags.writes ++ allocates t a).Perm (frees t a ++ (t.tags.after t.client a).writes) := by
  -- a step that neither allocates nor deletes, and one that starts a write
  have hsame : ∀ {g : Tags}, g.writes.Perm t.tags.writes →
      (t.tags.writes ++ []).Perm ([] ++ g.writes) := fun hperm => by
    rw [List.append_nil]
    exact hperm.symm
  have hnew : (t.tags.writes ++ [t.tags.serial]).Perm
      ([] ++ (Tags.startOp .write t.client t.tags).writes) := by
    have hlaunch := Tags.writes_launch t.client ⟨t.tags.serial, t.tags.attempt, .write⟩
      { t.tags with serial := t.tags.serial + 1 }
    rw [Tags.writesOf_write rfl] at hlaunch
    exact (List.perm_append_singleton _ _).trans hlaunch.symm
  -- a connect or a close moves operations, and leaves the writes among them
  cases a with
  | complete i outcome => exact hsame (Tags.writes_complete i t.tags)
  | handle i =>
    show (_ ++ []).Perm _
    cases hc : t.client.completed[i]? with
    | none =>
      rw [frees, Tracked.handles, Tags.after, hc]
      exact hsame (.refl _)
    | some c =>
      obtain ⟨tag, htag, hkind⟩ := forall₂_getElem? h.completed hc
      rw [frees, Tracked.handles, Tags.after, hc, htag, List.append_nil]
      dsimp only
      rw [List.flatMap_singleton]
      exact Tags.writes_handler htag hkind
  | runTask =>
    show (_ ++ []).Perm ([] ++ (if _ then _ else _ : Tags).writes)
    split
    · exact hsame (Tags.writes_reconnect _ _)
    · exact hsame (.refl _)
  | timerCheck => exact hsame (Tags.writes_reconnect _ _)
  | closeClient =>
    show (_ ++ []).Perm ([] ++ (if _ then _ else _ : Tags).writes)
    split
    · exact hsame (Tags.writes_closeSocket _)
    · exact hsame (.refl _)
  | reconnectServer =>
    show (_ ++ []).Perm ([] ++ (if _ then _ else _ : Tags).writes)
    split
    · exact hsame (Tags.writes_reconnect _ _)
    · exact hsame (.refl _)
  | clientSendData sendBuff sendSize =>
    show (_ ++ (if _ then _ else _ : List Nat)).Perm ([] ++ (if _ then _ else _ : Tags).writes)
    split
    · exact hnew
    · exact hsame (.refl _)
  | clientSendFormatData commandId sendBuff sendSize =>
    show (_ ++ (if _ then _ else _ : List Nat)).Perm ([] ++ (if _ then _ else _ : Tags).writes)
    split
    · exact hnew
    · exact hsame (.refl _)
  | timerSnapshot | tick => exact hsame (.refl _)

/-- A copy gets the next number. -/
theorem allocates_cases (t : Tracked F) (a : Client.Action) :
    allocates t a = [] ∧ t.tags.serial ≤ (t.tags.after t.client a).serial ∨
      allocates t a = [t.tags.serial] ∧
        (t.tags.after t.client a).serial = t.tags.serial + 1 := by
  have hle : t.tags.serial ≤ (t.tags.after t.client a).serial := by
    rcases Tracked.renews_after t a with ⟨hserial, -⟩ | ⟨hserial, -⟩ <;> omega
  have hnew : (Tags.startOp .write t.client t.tags).serial = t.tags.serial + 1 :=
    (Tags.live_launch t.client ⟨t.tags.serial, t.tags.attempt, .write⟩
      { t.tags with serial := t.tags.serial + 1 }).1
  cases a with
  | clientSendData sendBuff sendSize =>
    rw [allocates, Tags.after]
    by_cases hreg : t.client.registered = true
    · rw [if_pos hreg, if_pos hreg]
      exact .inr ⟨rfl, hnew⟩
    · rw [if_neg hreg, if_neg hreg]
      exact .inl ⟨rfl, Nat.le_refl _⟩
  | clientSendFormatData commandId sendBuff sendSize =>
    rw [allocates, Tags.after]
    by_cases hsends : t.client.registered = true ∧
        ¬ (t.client.transport = .tcp ∧ t.client.isConnect = false)
    · rw [if_pos hsends, if_pos hsends]
      exact .inr ⟨rfl, hnew⟩
    · rw [if_neg hsends, if_neg hsends]
      exact .inl ⟨rfl, Nat.le_refl _⟩
  | complete | handle | runTask | timerSnapshot | timerCheck | closeClient | reconnectServer
  | tick => exact .inl ⟨rfl, hle⟩

/-- The invariant, as a ledger: what has been allocated is what has been freed together with the
copies of the writes that are under way, and no copy has been allocated twice. -/
structure Kept (s : SendBuffers F) : Prop where
  aligned : Tracked.Aligned s.tracked
  ledger : s.allocated.Perm (s.freed ++ s.tracked.tags.writes)
  numbers : Numbered s.tracked.tags.serial s.allocated

theorem kept_start (transport : Transport) (connectId : Nat) (timerCheckSeconds : Int) (pf : F) :
    Kept (start transport connectId timerCheckSeconds pf) where
  aligned := Tracked.aligned_start transport connectId timerCheckSeconds pf
  ledger := .refl []
  numbers := ⟨List.nodup_nil, nofun⟩

theorem kept_step {s s' : SendBuffers F} {a : Client.Action} (h : Kept s)
    (hs : step fmt s a = some s') : Kept s' := by
  obtain ⟨t, ht, rfl⟩ := Option.map_eq_some_iff.mp hs
  have hafter : t.tags = s.tracked.tags.after s.tracked.client a := by
    obtain ⟨c, -, rfl⟩ := Option.map_eq_some_iff.mp ht
    rfl
  refine ⟨Tracked.aligned_step h.aligned ht, ?_, ?_⟩
  · show (s.allocated ++ allocates s.tracked a).Perm
      ((s.freed ++ frees s.tracked a) ++ t.tags.writes)
    apply (h.ledger.append_right _).trans
    rw [List.append_assoc, List.append_assoc, hafter]
    exact (writes_after h.aligned).append_left s.freed
  · show Numbered t.tags.serial (s.allocated ++ allocates s.tracked a)
    rw [hafter]
    rcases allocates_cases s.tracked a with ⟨hnone, hle⟩ | ⟨hone, hserial⟩
    · rw [hnone, List.append_nil]
      exact ⟨h.numbers.nodup, fun n hn => Nat.lt_of_lt_of_le (h.numbers.below n hn) hle⟩
    · rw [hone, hserial]
      exact h.numbers.cons.subperm (List.perm_append_singleton _ _).subperm

/-- The copy is there. -/
def Live (s : SendBuffers F) (n : Nat) : Prop := n ∈ s.allocated ∧ n ∉ s.freed

theorem Kept.live {s : SendBuffers F} (h : Kept s) {n : Nat} (hn : n ∈ s.tracked.tags.writes) :
    s.Live n := by
  refine ⟨h.ledger.mem_iff.mpr (List.mem_append_right _ hn), fun hfreed => ?_⟩
  have hnodup := h.ledger.nodup_iff.mp h.numbers.nodup
  exact (List.nodup_append.mp hnodup).2.2 n hfreed n hn rfl

/-- **Each copy is freed once.** In every run of a stream or datagram client, whatever becomes of
its connection, no copy is freed twice and none that has not been allocated; the copy of a write
that is under way, or whose handler has not run, is there; and when no write is left, every copy has
been freed. -/
theorem each_freed_once (fmt : IpacketFormat F) (transport : Transport) (connectId : Nat)
    (timerCheckSeconds : Int) (pf : F) (as : List Client.Action) (s : SendBuffers F)
    (hrun : run (step fmt) (start transport connectId timerCheckSeconds pf) as = some s) :
    s.freed.Nodup ∧ (∀ n ∈ s.freed, n ∈ s.allocated) ∧
      (∀ (i : Nat) rest, s.tracked.client.outstanding[i]? = some (.write rest) →
        ∃ tag, s.tracked.tags.outstanding[i]? = some tag ∧ s.Live tag.serial) ∧
      (∀ (i : Nat) c, s.tracked.client.completed[i]? = some c → c.kind = .write →
        ∃ tag, s.tracked.tags.completed[i]? = some tag ∧ s.Live tag.serial) ∧
      ((∀ op ∈ s.tracked.client.outstanding, op.kind ≠ .write) →
        (∀ c ∈ s.tracked.client.completed, c.kind ≠ .write) → s.freed.Perm s.allocated) := by
  have h : Kept s := invariant_of_run Kept (fun _ _ _ => kept_step)
    (kept_start transport connectId timerCheckSeconds pf) hrun
  have hnodup := h.ledger.nodup_iff.mp h.numbers.nodup
  have hwrites : ∀ tag ∈ s.tracked.tags.outstanding ++ s.tracked.tags.completed,
      tag.kind = .write → tag.serial ∈ s.tracked.tags.writes := fun tag hmem hkind =>
    List.mem_map_of_mem (List.mem_filter.mpr ⟨hmem, by simpa using hkind⟩)
  refine ⟨(List.nodup_append.mp hnodup).1, fun n hn =>
    h.ledger.mem_iff.mpr (List.mem_append_left _ hn), fun i rest hop => ?_, fun i c hc hkind => ?_,
    fun hout hcompleted => ?_⟩
  · obtain ⟨tag, htag, hkind⟩ := forall₂_getElem? h.aligned.outstanding hop
    exact ⟨tag, htag, h.live (hwrites tag
      (List.mem_append_left _ (List.mem_of_getElem? htag)) hkind.symm)⟩
  · obtain ⟨tag, htag, htagKind⟩ := forall₂_getElem? h.aligned.completed hc
    exact ⟨tag, htag, h.live (hwrites tag
      (List.mem_append_right _ (List.mem_of_getElem? htag)) (htagKind.symm.trans hkind))⟩
  · -- no operation is a write, so no tag is one of a write
    have hnone : s.tracked.tags.writes = [] := by
      rw [Tags.writes, Tags.writesOf, List.map_eq_nil_iff, List.filter_eq_nil_iff]
      intro tag hmem hwrite
      have hkind : tag.kind = .write := by simpa using hwrite
      rcases List.mem_append.mp hmem with hmem | hmem
      · obtain ⟨i, htag⟩ := List.mem_iff_getElem?.mp hmem
        obtain ⟨op, hop, hopKind⟩ := forall₂_getElem? h.aligned.outstanding.flip htag
        exact hout op (List.mem_of_getElem? hop) (hopKind.trans hkind)
      · obtain ⟨i, htag⟩ := List.mem_iff_getElem?.mp hmem
        obtain ⟨c, hc, hcKind⟩ := forall₂_getElem? h.aligned.completed.flip htag
        exact hcompleted c (List.mem_of_getElem? hc) (hcKind.trans hkind)
    have hledger := h.ledger
    rw [hnone, List.append_nil] at hledger
    exact hledger.symm

/-- One byte of three has gone when the client is closed. -/
def closedInWrite : List Client.Action :=
  [.complete 0 .connected, .handle 0, .clientSendData [1, 2, 3] 3, .complete 1 (.sent 1), .handle 0,
    .closeClient, .handle 1]

theorem each_freed_once_closedInWrite :
    ∃ s, run (step (cpacketFormat CpacketFormat.noPast))
        (start .tcp 1 30 (CpacketFormat.new (Vector.replicate maxBufferSize 0))) closedInWrite
          = some s ∧
      s.freed = [2] ∧ s.freed.Nodup ∧ s.freed.Perm s.allocated := by
  have hstate : ∃ s, run (step (cpacketFormat CpacketFormat.noPast))
      (start .tcp 1 30 (CpacketFormat.new (Vector.replicate maxBufferSize 0))) closedInWrite
        = some s ∧
      s.freed = [2] ∧ s.tracked.client.outstanding = [] ∧
      s.tracked.client.completed = [.readFailed] := ⟨_, rfl, rfl, rfl, rfl⟩
  obtain ⟨s, hrun, hfreed, hout, hcompleted⟩ := hstate
  obtain ⟨hnodup, -, -, -, hall⟩ := each_freed_once (cpacketFormat CpacketFormat.noPast) .tcp 1 30
    (CpacketFormat.new (Vector.replicate maxBufferSize 0)) closedInWrite s hrun
  refine ⟨s, hrun, hfreed, hnodup, hall (by rw [hout]; exact nofun) fun c hc => ?_⟩
  rw [hcompleted] at hc
  rw [List.mem_singleton.mp hc]
  decide

end SendBuffers

end PssClient
