import DpiEngine.Sharding

/-!
# Moves of the tables

What one step of the engine does to the table of each fast path: a packet that is decided moves the
flow of its connection, and every other flow is kept or removed, as in a step that decides nothing.
-/

namespace DPI

open Bytes FastPathProcessor

/-- The flow under a key is kept or removed. -/
def FastPathProcessor.Kept (fp fp' : FastPathProcessor) (key : FiveTuple) : Prop :=
  fp'.flowAt key = fp.flowAt key ∨ fp'.flowAt key = none

namespace Engine

variable {cfg : Config} {rm : RuleManager} {e e' : Engine} {l : Label}

/-- What a step does to the table of fast path `w` and to the packets it has decided. -/
inductive TableMove (cfg : Config) (rm : RuleManager) (e e' : Engine) (w : ℕ) : Prop
  | idle (hdecided : e'.decided cfg w = e.decided cfg w)
      (hkept : ∀ key, Kept (e.fps w).processor (e'.fps w).processor key)
  | decide (job : PacketJob) (action : PacketAction) (f : Flow)
      (hdecided : e'.decided cfg w = e.decided cfg w ++ [(job, action)])
      (hstep : ((e.fps w).processor.flowOf (canonicalTuple job.tuple)).step (some rm) job =
        .ok (action, f))
      (hown : (e'.fps w).processor.flowAt (canonicalTuple job.tuple) = some f)
      (hother : ∀ key ≠ canonicalTuple job.tuple,
        Kept (e.fps w).processor (e'.fps w).processor key)

/-- One call of `handleOutput`, as the fast path that has made it and the others see it. -/
theorem filter_worker_singleton (cfg : Config) (job : PacketJob) (action : PacketAction) (w : ℕ) :
    ([(job, action)].filter fun d => cfg.shape.worker d.1 == w) =
      if w = cfg.shape.worker job then [(job, action)] else [] := by
  by_cases hw : w = cfg.shape.worker job
  · rw [if_pos hw]
    exact List.filter_cons_of_pos (beq_iff_eq.2 hw.symm)
  · rw [if_neg hw]
    exact List.filter_cons_of_neg fun heq => hw (eq_of_beq heq).symm

/-- A step in which fast path `j` neither decides nor counts a packet. -/
theorem TableMove.of_setFP (j : ℕ) (fp : FastPath) (hfps : e'.fps = (e.setFP j fp).fps)
    (hhandled : e'.handled = e.handled)
    (hdecided : fp.thread.decided = (e.fps j).thread.decided)
    (hkept : ∀ key, Kept (e.fps j).processor fp.processor key) (w : ℕ) :
    TableMove cfg rm e e' w := by
  by_cases hw : w = j
  · subst hw
    have hfp : e'.fps w = fp := by rw [hfps, setFP_fps, if_pos rfl]
    refine .idle ?_ (hfp ▸ hkept)
    rw [decided, decided, hfp, hdecided, hhandled]
  · have hfp : e'.fps w = e.fps w := by rw [hfps, setFP_fps, if_neg hw]
    refine .idle ?_ fun key => Or.inl (by rw [hfp])
    rw [decided, decided, hfp, hhandled]

theorem Move.tables (h : Move cfg rm e l e') (hord : Network.Ordered cfg.shape e.network) (w : ℕ) :
    TableMove cfg rm e e' w := by
  cases h with
  | fpTest j env hj ht =>
    refine TableMove.of_setFP j _ rfl rfl ?_ (fun _ => Or.inl ?_) w
    · rw [ht]
      cases (e.fps j).running <;> rfl
    · rfl
  | fpIdle j env hj ht =>
    refine TableMove.of_setFP j _ rfl rfl ?_ (fun key => ?_) w
    · rw [ht]
      rfl
    · exact flowAt_cleanupStale (e.fps j).processor env.seen 300 key
  | fpPop j env job queue hj ht hq =>
    refine TableMove.of_setFP j _ rfl rfl ?_ (fun _ => Or.inl ?_) w
    · rw [ht]
      rfl
    · rfl
  | fpProcess j env job action processor hj ht hp =>
    by_cases hw : w = j
    · subst hw
      have hfp (fp : FastPath) : (e.setFP w fp).fps w = fp := by rw [setFP_fps, if_pos rfl]
      have heff := processPacket_ok hp
      obtain ⟨f, hstep, hown⟩ := heff.own
      refine .decide job action f ?_ hstep (by rw [hfp]; exact hown)
        fun key hkey => by rw [hfp]; exact heff.other key hkey
      rw [decided, decided, hfp, ht, show (FPThread.process job).decided = [] from rfl,
        List.append_nil]
      rfl
    · have hfp (fp : FastPath) : (e.setFP j fp).fps w = e.fps w := by rw [setFP_fps, if_neg hw]
      refine .idle ?_ fun key => Or.inl (by rw [hfp])
      rw [decided, decided, hfp]
      rfl
  | fpOutput j env job action hj ht =>
    have hroute : cfg.shape.worker job = j :=
      hord.second_routed j job (by simp [Engine.network, ht, FPThread.held])
    refine .idle ?_ fun key => Or.inl ?_
    · rw [decided, decided, setFP_fps]
      change (e.handled ++ [(job, action)]).filter _ ++ _ = _
      rw [List.filter_append, filter_worker_singleton, hroute]
      by_cases hw : w = j
      · subst hw
        have hnone : (if action = .drop then FPThread.count action
            else FPThread.push job action).decided = [] := by split_ifs <;> rfl
        rw [if_pos rfl, if_pos rfl, hnone, ht, List.append_nil]
        rfl
      · rw [if_neg hw, if_neg hw, List.append_nil]
    · rw [setFP_fps]
      by_cases hw : w = j
      · subst hw
        rw [if_pos rfl]
      · rw [if_neg hw]
  | fpPush j env job action queue hj ht hq =>
    refine TableMove.of_setFP j { e.fps j with thread := .count action } (by rfl) (by rfl) ?_
      (fun _ => Or.inl rfl) w
    rw [ht]
    rfl
  | fpCount j env action processor hj ht hp =>
    refine TableMove.of_setFP j _ rfl rfl ?_ (fun key => Or.inl ?_) w
    · rw [ht]
      rfl
    · rw [flowAt, flowAt, hp]
  | lbDispatch i j job queue hi ht hj hq =>
    exact TableMove.of_setFP j { e.fps j with inputQueue := queue } (by rfl) (by rfl) rfl
      (fun _ => Or.inl rfl) w
  | main e' hm =>
    have hsame := sameWork_main hm
    refine .idle ?_ fun key => Or.inl ?_
    · rw [decided, decided, hsame.handled, hsame.fpThread]
    · rw [hsame.fpProcessor]
  | _ => exact .idle rfl fun _ => Or.inl rfl

end Engine

end DPI
