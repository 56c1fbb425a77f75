import DpiEngine.Conversion
import DpiEngine.PcapRoundTrip
import DpiEngine.Shutdown

/-!
# Order of the output

Both directions of a connection take one path through the engine, so its packets are written in the
order in which they were read, whatever the threads of other connections do.  No packet is written
twice, and each is written with the timestamps and the data of its record.
-/

namespace DPI

open Bytes FastPathProcessor Engine PacketAnalyzer

instance (t u : FiveTuple) : Decidable (SameConnection t u) :=
  inferInstanceAs (Decidable (_ ∨ _))

/-- The packets of the connection of `t` in both directions, in order. -/
def ofConnection (t : FiveTuple) (jobs : List PacketJob) : List PacketJob :=
  jobs.filter fun job => SameConnection t job.tuple

/-- The reader makes the job of the record, and the output thread writes it with the timestamps and
the data of the record. -/
structure Conveys (raw : RawPacket) (job : PacketJob) : Prop where
  accepted : ∃ id, acceptPacket raw id = .ok (some job)
  written : writeOutputPacket job =
    PcapPacketHeader.bytes .little
      { tsSec := raw.header.tsSec
        tsUsec := raw.header.tsUsec
        inclLen := UInt32.ofNat raw.data.length
        origLen := UInt32.ofNat raw.data.length } ++ raw.data

theorem conveys_of_acceptPacket {raw : RawPacket} {id : UInt32} {job : PacketJob}
    (h : acceptPacket raw id = .ok (some job)) : Conveys raw job where
  accepted := ⟨id, h⟩
  written := by
    obtain ⟨hdata, hsec, husec, -⟩ := acceptPacket_some h
    rw [writeOutputPacket, hdata, hsec, husec]

/-! ## Jobs come in the order of the records -/

theorem conveys_readerJobs {records : List RawPacket} {packetId : UInt32} {jobs : List PacketJob}
    (h : readerJobs packetId records = .ok jobs) :
    ∃ read : List RawPacket, read.Sublist records ∧ List.Forall₂ Conveys read jobs := by
  induction records generalizing packetId jobs with
  | nil =>
    cases h
    exact ⟨[], .slnil, .nil⟩
  | cons raw records ih =>
    obtain ⟨_ | job, haccept, h⟩ := bind_eq_ok_iff.1 h
    · obtain ⟨read, hsub, hread⟩ := ih h
      exact ⟨read, hsub.cons raw, hread⟩
    · obtain ⟨rest, hrest, h⟩ := bind_eq_ok_iff.1 h
      cases h
      obtain ⟨read, hsub, hread⟩ := ih hrest
      exact ⟨raw :: read, hsub.cons_cons raw, .cons (conveys_of_acceptPacket haccept) hread⟩

/-- What is related to a part of a list in order is related to a part of what the list is related
to. -/
theorem exists_sublist_of_forall₂ {α β : Type*} {R : α → β → Prop} {xs : List α}
    {ys ys' : List β} (h : List.Forall₂ R xs ys) (hsub : ys'.Sublist ys) :
    ∃ xs', xs'.Sublist xs ∧ List.Forall₂ R xs' ys' := by
  induction h generalizing ys' with
  | nil =>
    rw [List.sublist_nil.1 hsub]
    exact ⟨[], .slnil, .nil⟩
  | @cons x y xs ys hxy _ ih =>
    rcases List.sublist_cons_iff.1 hsub with hskip | ⟨zs, rfl, hzs⟩
    · obtain ⟨xs', hxs, hR⟩ := ih hskip
      exact ⟨xs', hxs.cons x, hR⟩
    · obtain ⟨xs', hxs, hR⟩ := ih hzs
      exact ⟨x :: xs', hxs.cons_cons x, .cons hxy hR⟩

/-- The same for a part in any order. -/
theorem exists_subperm_of_forall₂ {α β : Type*} {R : α → β → Prop} {xs : List α}
    {ys ys' : List β} (h : List.Forall₂ R xs ys) (hsub : ys'.Subperm ys) :
    ∃ xs', xs'.Subperm xs ∧ List.Forall₂ R xs' ys' := by
  obtain ⟨zs, hperm, hzs⟩ := hsub
  obtain ⟨xs₁, hxs₁, hR⟩ := exists_sublist_of_forall₂ h hzs
  obtain ⟨xs', hR', hxs'⟩ := List.perm_comp_forall₂ hperm.symm hR.flip
  exact ⟨xs', ⟨xs₁, hxs'.symm, hxs₁⟩, hR'.flip⟩

/-! ## One connection -/

/-- Both directions of a connection have one worker. -/
theorem SameConnection.worker_eq {t u : FiveTuple} (h : SameConnection t u) (cfg : Config) :
    worker cfg.numLoadBalancers cfg.fpsPerLb u = worker cfg.numLoadBalancers cfg.fpsPerLb t := by
  rw [← worker_canonicalTuple, (sameConnection_iff t u).1 h, worker_canonicalTuple]

theorem ofConnection_of (cfg : Config) (t : FiveTuple) (jobs : List PacketJob) :
    ofConnection t (Network.of cfg.shape (worker cfg.numLoadBalancers cfg.fpsPerLb t) jobs) =
      ofConnection t jobs := by
  rw [ofConnection, ofConnection, Network.of, List.filter_filter]
  apply List.filter_congr
  intro job _
  by_cases h : SameConnection t job.tuple
  · simp [h, Config.shape, h.worker_eq cfg]
  · simp [h]

/-- In every run, at every moment, the written packets of a connection are some of its packets in
the order of the input, no packet is written twice, and each is written as its record was read. -/
theorem output_in_connection_order {cfg : Config} {rm : RuleManager} {records : List RawPacket}
    {input : List PacketJob} {ts : List (Taken Engine Label)} {e : Engine}
    (hf : 0 < cfg.fpsPerLb) (hread : readerJobs 0 records = .ok input)
    (hrun : Run (Step cfg rm) (start input) ts e) :
    (∀ t, (ofConnection t e.written).Sublist (ofConnection t input) ∧
      ∃ sent : List RawPacket, sent.Sublist records ∧
        List.Forall₂ Conveys sent (ofConnection t e.written)) ∧
    e.written.Subperm input ∧
    ∃ sent : List RawPacket, sent.Subperm records ∧ List.Forall₂ Conveys sent e.written := by
  have hsound : Sound cfg input e := (hrun.invariant (Sound cfg input) (fun _ => True)
    (fun _ _ _ hs _ h => h.step hf hs) (fun _ _ => trivial) (sound_start cfg input)).1
  have haccepted : e.accepted.Sublist input := by
    rw [← hsound.accepted]
    exact List.sublist_append_left _ _
  have hconnection (t : FiveTuple) :
      (ofConnection t e.written).Sublist (ofConnection t input) := by
    have hworker := hsound.ordered.written_in_order cfg.shape
      (worker cfg.numLoadBalancers cfg.fpsPerLb t)
    have hall : (ofConnection t e.written).Sublist (ofConnection t e.accepted) := by
      rw [← ofConnection_of cfg t e.written, ← ofConnection_of cfg t e.accepted]
      exact hworker.filter _
    exact hall.trans (haccepted.filter _)
  have hsubperm : e.written.Subperm input :=
    (hsound.ordered.written_subperm cfg.shape).trans haccepted.subperm
  obtain ⟨read, hrecords, hconveys⟩ := conveys_readerJobs hread
  refine ⟨fun t => ⟨hconnection t, ?_⟩, hsubperm, ?_⟩
  · obtain ⟨sent, hsent, hR⟩ := exists_sublist_of_forall₂ hconveys
      ((hconnection t).trans List.filter_sublist)
    exact ⟨sent, hsent.trans hrecords, hR⟩
  · obtain ⟨sent, hsent, hR⟩ := exists_subperm_of_forall₂ hconveys hsubperm
    exact ⟨sent, hsent.trans hrecords.subperm, hR⟩

/-- Three packets for one fast path and one for another, which is served first. -/
def serveVisits : List Label :=
  List.flatten [List.replicate 9 .reader, List.replicate 9 (.lb 0), List.replicate 3 (.lb 1),
    List.replicate 6 (.fp 3 ⟨0, 0, []⟩), List.replicate 18 (.fp 0 ⟨1, 1, []⟩),
    List.replicate 12 .output]

/-- The three packets of the first client are written behind that of the second. -/
theorem output_in_connection_order_visits :
    ∃ input ts e, readerJobs 0 visitRecords = .ok input ∧
      Run (Step twoByTwo {}) (start input) ts e ∧ e.written.length = 4 ∧
      e.written.head? = input[1]? ∧ (ofConnection firstClient e.written).length = 3 ∧
      (ofConnection firstClient e.written).Sublist (ofConnection firstClient input) ∧
      ∃ sent : List RawPacket, sent.Sublist visitRecords ∧
        List.Forall₂ Conveys sent (ofConnection firstClient e.written) := by
  have h : (do
      let input ← (readerJobs 0 visitRecords).toOption
      let r ← exec twoByTwo {} (start input) serveVisits
      return decide (r.2.written.length = 4 ∧ r.2.written.head? = input[1]? ∧
        (ofConnection firstClient r.2.written).length = 3)) = some true := by decide +kernel
  obtain ⟨input, hread⟩ := defined_readerJobs 0 visitRecords
  obtain ⟨_, hinput, h⟩ := Option.bind_eq_some_iff.1 h
  obtain ⟨⟨ts, e⟩, hexec, h⟩ := Option.bind_eq_some_iff.1 h
  rw [hread] at hinput
  cases hinput
  obtain ⟨hlength, hhead, hthree⟩ := of_decide_eq_true (Option.some.inj h)
  have hrun := run_of_exec hexec
  obtain ⟨hsub, hsent⟩ := (output_in_connection_order (by decide) hread hrun).1 firstClient
  exact ⟨input, ts, e, hread, hrun, hlength, hhead, hthree, hsub, hsent⟩

end DPI
