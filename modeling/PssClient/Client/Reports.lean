import PssClient.Client.Posts

/-!
# The events of a connection

The handler of a connect that succeeds posts a connect event, the handler of every read and write
that fails a disconnect event with its own error. Nothing remembers that a connection has been
reported as lost.

* `Report` / `reports` — the events that the handlers of a client have posted, in order, each with
  the operation that it reports on.
* `Tags.Renews` — what a step does to the serial numbers: no operation has two, none is used twice.
* `disconnect_per_operation` — the result: one event for each operation that fails;
  `disconnects_twoFailures` is a connection with two of them.
-/

namespace PssClient

open Machine Pool

/-- An event with the operation that it reports on. -/
inductive Report
  | connect (tag : OpTag)
  | disconnect (tag : OpTag)
  deriving DecidableEq

/-- What the handler of a completion reports. -/
def Completion.report (tag : OpTag) : Completion → Option Report
  | .connected => some (.connect tag)
  | .readFailed | .writeFailed => some (.disconnect tag)
  | _ => none

/-- A posted task as the report of a successful connect, or of a failed read or write. -/
def reportOf : Task × Source → Option Report
  | (.message .connect, .handler tag _) => some (.connect tag)
  | (.message .disconnect, .handler tag c) => if c.lost = true then some (.disconnect tag) else none
  | _ => none

/-- What the handler of a completion posts reports that completion. -/
theorem reportOf_handlerPosts {F : Type*} {fmt : IpacketFormat F} {s : Client F} {c : Completion}
    {new : List Task} (tag : OpTag) (h : Client.HandlerPosts fmt s c new) :
    (new.map fun task => (task, Source.handler tag c)).filterMap reportOf
      = (c.report tag).toList := by
  have hlost : ∀ c : Completion, c.lost = true →
      new = .message .disconnect :: (if s.isClientClose = false then [.reconnect] else []) →
      (new.map fun task => (task, Source.handler tag c)).filterMap reportOf
        = [.disconnect tag] := by
    intro c hc hnew
    have hfirst : reportOf (.message .disconnect, .handler tag c) = some (.disconnect tag) :=
      if_pos hc
    rw [hnew, List.map_cons, List.filterMap_cons_some hfirst]
    split <;> rfl
  cases c with
  | connected =>
    obtain rfl : new = [.message .connect] := h
    rfl
  | connectFailed =>
    obtain rfl : new = [.message .disconnect] := h
    rfl
  | received bytes =>
    obtain ⟨r, -, rfl⟩ := h
    rw [List.map_map, List.filterMap_map]
    exact List.filterMap_eq_nil_iff.mpr fun p _ => rfl
  | sent rest sendLength =>
    obtain rfl : new = [] := h
    rfl
  | readFailed => exact hlost .readFailed rfl h
  | writeFailed => exact hlost .writeFailed rfl h

namespace Tags

/-! ## Serial numbers -/

variable {F : Type*} {g g' : Tags}

/-- The numbers of the operations that have not been handled. -/
def live (g : Tags) : List Nat := (g.outstanding ++ g.completed).map OpTag.serial

/-- From `g` on, the operations of `g'` and those `taken` have the numbers of `g` and at most a new
one. -/
def Renews (g g' : Tags) (taken : List Nat) : Prop :=
  g'.serial = g.serial ∧ (g'.live ++ taken).Subperm g.live ∨
    g'.serial = g.serial + 1 ∧ (g'.live ++ taken).Subperm (g.serial :: g.live)

theorem Renews.keeps (hserial : g'.serial = g.serial) (h : g'.live.Subperm g.live) :
    Renews g g' [] := by
  refine .inl ⟨hserial, ?_⟩
  rw [List.append_nil]
  exact h

theorem Renews.adds (hserial : g'.serial = g.serial + 1)
    (h : g'.live.Subperm (g.serial :: g.live)) : Renews g g' [] := by
  refine .inr ⟨hserial, ?_⟩
  rw [List.append_nil]
  exact h

theorem live_launch (s : Client F) (tag : OpTag) (g : Tags) :
    (launch s tag g).serial = g.serial ∧ (launch s tag g).live.Perm (tag.serial :: g.live) := by
  unfold launch
  split
  · refine ⟨rfl, ?_⟩
    show ((g.outstanding ++ (g.completed ++ [tag])).map OpTag.serial).Perm _
    rw [← List.append_assoc]
    exact (List.perm_append_singleton tag (g.outstanding ++ g.completed)).map OpTag.serial
  · refine ⟨rfl, ?_⟩
    show ((g.outstanding ++ [tag] ++ g.completed).map OpTag.serial).Perm _
    rw [List.append_assoc]
    exact List.perm_middle.map OpTag.serial

theorem renews_startOp (kind : OpKind) (s : Client F) (g : Tags) :
    Renews g (startOp kind s g) [] := by
  obtain ⟨hserial, hlive⟩ := live_launch s ⟨g.serial, g.attempt, kind⟩
    { g with serial := g.serial + 1 }
  exact .adds hserial hlive.subperm

theorem renews_startConnect (s : Client F) (g : Tags) : Renews g (startConnect s g) [] := by
  refine .adds rfl (List.Perm.subperm ?_)
  show ((g.outstanding ++ [_] ++ g.completed).map OpTag.serial).Perm _
  rw [List.append_assoc]
  exact List.perm_middle.map OpTag.serial

theorem renews_reconnect (s : Client F) (g : Tags) : Renews g (reconnect s g) [] := by
  unfold reconnect
  split
  · exact renews_startConnect s g
  · exact .keeps rfl (List.Subperm.refl _)

theorem live_closeSocket (g : Tags) : (closeSocket g).live.Perm g.live := by
  have hperm : (g.completed ++ g.outstanding).Perm (g.outstanding ++ g.completed) :=
    List.perm_append_comm
  exact hperm.map OpTag.serial

theorem renews_complete (i : Nat) (g : Tags) : Renews g (complete i g) [] := by
  unfold complete
  split
  case h_1 tag htag =>
    refine .keeps rfl (List.Perm.subperm (List.Perm.map OpTag.serial ?_))
    have hperm : (g.outstanding.eraseIdx i ++ (g.completed ++ [tag])).Perm
        (tag :: g.outstanding.eraseIdx i ++ g.completed) := by
      rw [← List.append_assoc]
      exact List.perm_append_singleton tag _
    exact hperm.trans ((perm_eraseIdx htag).symm.append_right g.completed)
  case h_2 => exact .keeps rfl (List.Subperm.refl _)

/-- The handler of a read or write that has failed takes the number for good. -/
def taken (tag : OpTag) (c : Completion) : List Nat := if c.lost = true then [tag.serial] else []

theorem renews_handler {s : Client F} {i : Nat} {tag : OpTag} (c : Completion)
    (htag : g.completed[i]? = some tag) :
    Renews g (handler s tag c { g with completed := g.completed.eraseIdx i }) (taken tag c) := by
  set g₁ : Tags := { g with completed := g.completed.eraseIdx i } with hg₁
  have hlive : (tag.serial :: g₁.live).Perm g.live := by
    have hperm := (perm_eraseIdx htag).append_left g.outstanding
    exact (List.perm_middle.symm.trans hperm.symm).map OpTag.serial
  have hrest : g₁.live.Subperm g.live := (List.Subperm.cons_self).trans hlive.subperm
  have hread : Renews g (startOp .read s g₁) [] := by
    obtain ⟨hserial, hnew⟩ := live_launch s ⟨g₁.serial, g₁.attempt, .read⟩
      { g₁ with serial := g₁.serial + 1 }
    refine .adds hserial (hnew.subperm.trans ?_)
    exact (List.subperm_cons _).mpr hrest
  have hlost : Renews g (if s.isClientClose = false then closeSocket g₁ else g₁) [tag.serial] := by
    refine .inl ⟨by split <;> rfl, List.Perm.subperm ?_⟩
    refine (List.perm_append_singleton _ _).trans (.trans (.cons _ ?_) hlive)
    split
    · exact live_closeSocket g₁
    · exact .refl _
  cases c with
  | connected => exact hread
  | received bytes => exact hread
  | connectFailed => exact .keeps rfl hrest
  | readFailed => exact hlost
  | writeFailed => exact hlost
  | sent rest sendLength =>
    show Renews g (if rest.drop sendLength = [] then g₁ else launch s tag g₁) []
    split
    · exact .keeps rfl hrest
    · obtain ⟨hserial, hnew⟩ := live_launch s tag g₁
      exact .keeps hserial (hnew.trans hlive).subperm

end Tags

namespace Tracked

variable {F : Type*} {fmt : IpacketFormat F}

/-- A step hands the numbers of the operations on: from the outstanding to the completed, from there
to the handler that takes them, and at most one new operation gets the next number. -/
theorem renews_after (t : Tracked F) (a : Client.Action) :
    Tags.Renews t.tags (t.tags.after t.client a)
      ((t.handles a).flatMap fun h => Tags.taken h.1 h.2) := by
  have hsame : Tags.Renews t.tags t.tags [] := .keeps rfl (List.Subperm.refl _)
  -- every action starts operations, moves them on, drops them, or has nothing to do with them
  cases a with
  | complete i outcome => exact Tags.renews_complete i t.tags
  | handle i =>
    unfold handles Tags.after
    dsimp only
    split
    case h_1 c tag hc htag =>
      rw [List.flatMap_singleton]
      exact Tags.renews_handler c htag
    case h_2 => exact hsame
  | runTask =>
    show Tags.Renews _ (if _ then _ else _) []
    split
    · exact Tags.renews_reconnect _ _
    · exact hsame
  | timerSnapshot => exact hsame
  | timerCheck => exact Tags.renews_reconnect _ _
  | closeClient =>
    show Tags.Renews _ (if _ then _ else _) []
    split
    · exact .keeps rfl (Tags.live_closeSocket _).subperm
    · exact hsame
  | reconnectServer =>
    show Tags.Renews _ (if _ then _ else _) []
    split
    · exact Tags.renews_reconnect _ _
    · exact hsame
  | clientSendData sendBuff sendSize =>
    show Tags.Renews _ (if _ then _ else _) []
    split
    · exact Tags.renews_startOp _ _ _
    · exact hsame
  | clientSendFormatData commandId sendBuff sendSize =>
    show Tags.Renews _ (if _ then _ else _) []
    split
    · exact Tags.renews_startOp _ _ _
    · exact hsame
  | tick d => exact hsame

/-! ## The events that have been posted -/

/-- The events posted by the handlers of successful connects and of failed reads and writes. -/
def reports (t : Tracked F) : List Report := t.postedFrom.filterMap reportOf

/-- The numbers of the failed reads and writes that have been handled. -/
def lostSerials (t : Tracked F) : List Nat := t.handled.flatMap fun h => Tags.taken h.1 h.2

/-- The invariant: the errors that have been posted are those of the completions that have been
handled, and the numbers of the operations, of those under way and of those that are over, are
different ones. -/
structure Reported (t : Tracked F) : Prop where
  aligned : Aligned t
  sources : t.sources.length = t.client.posted.length
  reports : t.reports = t.handled.filterMap fun h => h.2.report h.1
  kinds : ∀ h ∈ t.handled, h.2.kind = h.1.kind
  numbers : Numbered t.tags.serial (t.tags.live ++ t.lostSerials)

theorem numbers_step {t t' : Tracked F} {a : Client.Action} (hs : step fmt t a = some t')
    (h : Numbered t.tags.serial (t.tags.live ++ t.lostSerials)) :
    Numbered t'.tags.serial (t'.tags.live ++ t'.lostSerials) := by
  obtain ⟨s', -, rfl⟩ := Option.map_eq_some_iff.mp hs
  set new := (t.handles a).flatMap fun h => Tags.taken h.1 h.2 with hnew
  have hlost : ∀ l : List Nat, (l ++ (t.handled ++ t.handles a).flatMap
      fun h => Tags.taken h.1 h.2).Perm ((l ++ new) ++ t.lostSerials) := by
    intro l
    rw [List.flatMap_append, List.append_assoc]
    exact List.perm_append_comm.append_left l
  show Numbered (t.tags.after t.client a).serial ((t.tags.after t.client a).live ++
    (t.handled ++ t.handles a).flatMap fun h => Tags.taken h.1 h.2)
  rcases renews_after t a with ⟨hserial, hsub⟩ | ⟨hserial, hsub⟩
  · rw [hserial]
    refine h.subperm ((hlost _).subperm.trans ?_)
    have hright := (List.subperm_append_right t.lostSerials).mpr hsub
    exact hright
  · rw [hserial]
    refine h.cons.subperm ((hlost _).subperm.trans ?_)
    have hright := (List.subperm_append_right t.lostSerials).mpr hsub
    exact hright

/-- **The events that a step posts are those of the completion that it handles.** A handler posts
what its completion is, with the tag of the operation; the other actions post no error. -/
theorem reports_step {t t' : Tracked F} {a : Client.Action} (haligned : Aligned t)
    (hsources : t.sources.length = t.client.posted.length) (hs : step fmt t a = some t') :
    t'.sources.length = t'.client.posted.length ∧
      t'.reports = t.reports ++ (t.handles a).filterMap (fun h => h.2.report h.1) ∧
      ∀ h ∈ t.handles a, h.2.kind = h.1.kind := by
  obtain ⟨s', hs', ht'⟩ := Option.map_eq_some_iff.mp hs
  have hclient : t'.client = s' := ht' ▸ rfl
  -- only a handler reports
  by_cases ha : ∃ i, a = .handle i
  · obtain ⟨i, rfl⟩ := ha
    obtain ⟨c, hc, hhandler⟩ := Option.bind_eq_some_iff.mp hs'
    obtain ⟨tag, htag, hkind⟩ := forall₂_getElem? haligned.completed hc
    obtain ⟨hhandles, hby⟩ := postedBy_handle hc htag
    obtain ⟨new, hnew, hposts⟩ := Client.posted_of_handler (Client.handles_of_handler hhandler)
    obtain ⟨hlength, hfrom⟩ := postedFrom_of_step hsources hs (hclient ▸ hnew)
    refine ⟨hlength, ?_, ?_⟩
    · rw [reports, hfrom, List.filterMap_append, hby, reportOf_handlerPosts tag hposts, hhandles]
      rw [List.filterMap_cons]
      cases c.report tag <;> rfl
    · intro h hmem
      rw [hhandles] at hmem
      obtain rfl := List.mem_singleton.mp hmem
      exact hkind
  · have ha' : ∀ i, a ≠ .handle i := fun i heq => ha ⟨i, heq⟩
    obtain ⟨hhandles, hby⟩ := postedBy_other (t := t) ha'
    obtain ⟨new, hnew, herrors⟩ := Client.posted_of_other ha' hs'
    obtain ⟨hlength, hfrom⟩ := postedFrom_of_step hsources hs (hclient ▸ hnew)
    refine ⟨hlength, ?_, ?_⟩
    · rw [reports, hfrom, List.filterMap_append, hby, hhandles]
      congr 1
      apply List.filterMap_eq_nil_iff.mpr
      intro p hp
      obtain ⟨task, htask, rfl⟩ := List.mem_map.mp hp
      rw [herrors task htask]
      rfl
    · rw [hhandles]
      exact fun h hmem => absurd hmem List.not_mem_nil

theorem reported_step {t t' : Tracked F} {a : Client.Action} (h : Reported t)
    (hs : step fmt t a = some t') : Reported t' := by
  obtain ⟨hsources, hreports, hkinds⟩ := reports_step h.aligned h.sources hs
  have hhandled : t'.handled = t.handled ++ t.handles a := by
    obtain ⟨s', -, rfl⟩ := Option.map_eq_some_iff.mp hs
    rfl
  refine ⟨aligned_step h.aligned hs, hsources, ?_, ?_, numbers_step hs h.numbers⟩
  · rw [hreports, hhandled, List.filterMap_append, h.reports]
  · rw [hhandled]
    intro p hp
    rcases List.mem_append.mp hp with hold | hnew
    · exact h.kinds p hold
    · exact hkinds p hnew

theorem reported_of_run {transport : Transport} {connectId : Nat} {timerCheckSeconds : Int}
    {pf : F} {as : List Client.Action} {t : Tracked F}
    (hrun : run (step fmt) (start transport connectId timerCheckSeconds pf) as = some t) :
    Reported t := by
  refine invariant_of_run Reported (fun _ _ _ => reported_step) ?_ hrun
  obtain ⟨hposted, -⟩ := Client.start_posted transport connectId timerCheckSeconds pf
  refine ⟨aligned_start _ _ _ _, ?_, ?_, nofun, ?_⟩
  · show 0 = (Client.start transport connectId timerCheckSeconds pf).posted.length
    rw [hposted]
    rfl
  · show List.filterMap reportOf
      ((Client.start transport connectId timerCheckSeconds pf).posted.zip []) = []
    rw [hposted]
    rfl
  · exact ⟨List.nodup_singleton 0, fun x hx => List.mem_singleton.mp hx ▸ Nat.zero_lt_one⟩

/-! ## One event for each failure -/

theorem mem_reports {t : Tracked F} (h : Reported t) (tag : OpTag) :
    .disconnect tag ∈ t.reports ↔ ∃ c, (tag, c) ∈ t.handled ∧ c.lost = true := by
  have hreport : ∀ c : Completion, ∀ tag', c.report tag' = some (.disconnect tag) ↔
      tag' = tag ∧ c.lost = true := by
    intro c tag'
    cases c <;> simp [Completion.report, Completion.lost]
  rw [h.reports, List.mem_filterMap]
  constructor
  · rintro ⟨⟨tag', c⟩, hmem, hc⟩
    obtain ⟨rfl, hlost⟩ := (hreport c tag').mp hc
    exact ⟨c, hmem, hlost⟩
  · rintro ⟨c, hmem, hlost⟩
    exact ⟨(tag, c), hmem, (hreport c tag).mpr ⟨rfl, hlost⟩⟩

/-- **An operation does not report twice.** Its number would have been given up twice, and the
numbers that have been given up are different ones. -/
theorem count_reports_le {t : Tracked F} (h : Reported t) (tag : OpTag) :
    t.reports.count (.disconnect tag) ≤ 1 := by
  have hnodup : t.lostSerials.Nodup := List.Nodup.of_append_right h.numbers.nodup
  -- no more reports than numbers given up; induction on what has been handled
  have hle : ∀ l : List (OpTag × Completion),
      (l.filterMap fun h => h.2.report h.1).count (.disconnect tag)
        ≤ (l.flatMap fun h => Tags.taken h.1 h.2).count tag.serial := by
    intro l
    induction l with
    | nil => exact Nat.le_refl 0
    | cons p l ih =>
      obtain ⟨tag', c⟩ := p
      rw [List.flatMap_cons, List.count_append]
      have hhead : (c.report tag').toList.count (.disconnect tag)
          ≤ (Tags.taken tag' c).count tag.serial := by
        -- a report of a failure is of the operation that has failed
        have hone : ∀ r : Report, r = .disconnect tag' →
            [r].count (.disconnect tag) ≤ [tag'.serial].count tag.serial := by
          rintro r rfl
          by_cases heq : tag' = tag
          · subst heq
            rw [List.count_singleton_self, List.count_singleton_self]
          · have hne : Report.disconnect tag' ≠ .disconnect tag := fun h => heq (by cases h; rfl)
            rw [List.count_eq_zero_of_not_mem fun hmem => hne (List.mem_singleton.mp hmem).symm]
            exact Nat.zero_le _
        cases c with
        | readFailed => exact hone _ rfl
        | writeFailed => exact hone _ rfl
        | connected => exact Nat.le_refl 0
        | _ => exact Nat.le_refl 0
      have hsplit : ((tag', c) :: l).filterMap (fun h => h.2.report h.1)
          = (c.report tag').toList ++ l.filterMap fun h => h.2.report h.1 := by
        rw [List.filterMap_cons]
        cases c.report tag' <;> rfl
      rw [hsplit, List.count_append]
      exact Nat.add_le_add hhead ih
  rw [h.reports]
  exact (hle t.handled).trans (List.nodup_iff_count_le_one.mp hnodup tag.serial)

/-- The events between two consecutive connect events, or after the last one: what the user is told
of one connection. -/
def Window (reports : List Report) (opened : OpTag) (between : List Report) : Prop :=
  ∃ before after, reports = before ++ .connect opened :: (between ++ after) ∧
    (∀ tag, .connect tag ∉ between) ∧ ∀ r, after.head? = some r → ∃ tag, r = .connect tag

/-- **Disconnect events.** In every run the handlers of reads and writes post a disconnect event
for exactly the operations that have failed: between two consecutive connect events, and after the
last one, at most one for each read and each write, however many were outstanding; and in the whole
run exactly one for each that has completed with an error and been handled. -/
theorem disconnect_per_operation (fmt : IpacketFormat F) (transport : Transport) (connectId : Nat)
    (timerCheckSeconds : Int) (pf : F) (as : List Client.Action) (t : Tracked F)
    (hrun : run (step fmt) (start transport connectId timerCheckSeconds pf) as = some t) :
    (∀ opened between, Window t.reports opened between →
        ∀ tag, between.count (.disconnect tag) ≤ 1) ∧
      (∀ tag, t.reports.count (.disconnect tag) = 1 ↔
        ∃ c, (tag, c) ∈ t.handled ∧ c.lost = true) ∧
      ∀ tag, .disconnect tag ∈ t.reports → tag.kind = .read ∨ tag.kind = .write := by
  have h := reported_of_run hrun
  refine ⟨?_, ?_, ?_⟩
  · rintro opened between ⟨before, after, hreports, -, -⟩ tag
    have hsub : between.Sublist t.reports := by
      rw [hreports]
      exact ((List.sublist_append_left between after).cons _).trans
        (List.sublist_append_right before _)
    exact (hsub.count_le _).trans (count_reports_le h tag)
  · intro tag
    rw [← mem_reports h tag, ← List.one_le_count_iff]
    have hle := count_reports_le h tag
    omega
  · intro tag hmem
    obtain ⟨c, hhandled, hlost⟩ := (mem_reports h tag).mp hmem
    have hkind : c.kind = tag.kind := h.kinds _ hhandled
    rw [← hkind]
    cases c with
    | readFailed => exact .inl rfl
    | writeFailed => exact .inr rfl
    | _ => cases hlost

/-- A connection is lost with its read and one write outstanding. -/
def twoFailures : List Client.Action :=
  [.complete 0 .connected, .handle 0, .clientSendData [7] 1, .complete 0 .failed,
    .complete 0 .failed, .handle 0, .handle 0]

theorem disconnect_per_operation_twoFailures :
    ∃ t, run (step (cpacketFormat CpacketFormat.noPast)) (started .tcp) twoFailures = some t ∧
      t.reports.count (.disconnect ⟨2, 1, .write⟩) = 1 ∧
      ∃ c, (⟨2, 1, .write⟩, c) ∈ t.handled ∧ c.lost = true := by
  obtain ⟨t, hrun, hmem⟩ : ∃ t, run (step (cpacketFormat CpacketFormat.noPast)) (started .tcp)
      twoFailures = some t ∧ (⟨2, 1, .write⟩, .writeFailed) ∈ t.handled :=
    ⟨_, rfl, .tail _ (.tail _ (.head _))⟩
  obtain ⟨-, hexactly, -⟩ := disconnect_per_operation (cpacketFormat CpacketFormat.noPast) .tcp 1 30
    (CpacketFormat.new (Vector.replicate maxBufferSize 0)) twoFailures t hrun
  have hlost : ∃ c, (⟨2, 1, .write⟩, c) ∈ t.handled ∧ c.lost = true := ⟨.writeFailed, hmem, rfl⟩
  exact ⟨t, hrun, (hexactly _).mpr hlost, hlost⟩

/-- Both operations of the connection report that it is lost. -/
theorem disconnects_twoFailures :
    ∃ t opened between,
      run (step (cpacketFormat CpacketFormat.noPast)) (started .tcp) twoFailures = some t ∧
      Window t.reports opened between ∧
      ¬ (between.countP fun r => match r with
        | .disconnect tag => tag.attempt = opened.attempt
        | .connect _ => false) ≤ 1 := by
  refine ⟨_, ⟨0, 1, .connect⟩, [.disconnect ⟨1, 1, .read⟩, .disconnect ⟨2, 1, .write⟩], rfl, ?_,
    by decide⟩
  exact ⟨[], [], rfl, by simp, nofun⟩

end Tracked

end PssClient
