import Mathlib
import PointerAccel.Proofs.Run
import PointerAccel.Proofs.Single.Positive

/-!
# Frame times stay in range

The timer reports the time since the previous cycle in milliseconds: a gap shorter than one
millisecond reuses the last report, and any other reading is clamped to one hundred. Whatever
the clock does (going back, standing still, jumping by years), the frame time a cycle hands to
the curve is a positive single between one and one hundred. A NaN reading cannot slip
through: it fails the lower test, and the upper test clamps it.

* `FrameTimer.elapsed_frame`: one reading keeps the report in `[1, 100]`;
* `Engine.process_timer`: only a cycle that gets past the exactness check reads the clock;
* `Engine.timer_along_run`: over any run the last report stays in `[1, 100]`, so every cycle of
  a fresh engine sees a frame time in that range.
-/

namespace PointerAccel

open PointerAccel.Binary Float.Model.UnpackedFloat

theorem unpack_minFrameMs :
    minFrameMs.toModel.unpack = .finite .positive (2 ^ 23) (-23) (by decide) := rfl

theorem unpack_maxFrameMs :
    maxFrameMs.toModel.unpack = .finite .positive 13107200 (-17) (by decide) := rfl

theorem singleRat_minFrameMs : singleRat minFrameMs = 1 := by
  rw [singleRat_eq, unpack_minFrameMs, ofUnpacked_finite_toRat]
  norm_num [Sign.apply]

theorem singleRat_maxFrameMs : singleRat maxFrameMs = 100 := by
  rw [singleRat_eq, unpack_maxFrameMs, ofUnpacked_finite_toRat]
  norm_num [Sign.apply]

theorem posIn_minFrameMs : PosIn 1 100 minFrameMs :=
  posIn_of_singleRat (by rw [isFinite_eq_unpack, unpack_minFrameMs]; rfl) one_pos
    (by rw [singleRat_minFrameMs]) (by rw [singleRat_minFrameMs]; norm_num)

theorem posIn_maxFrameMs : PosIn 1 100 maxFrameMs :=
  posIn_of_singleRat (by rw [isFinite_eq_unpack, unpack_maxFrameMs]; rfl) one_pos
    (by rw [singleRat_maxFrameMs]; norm_num) (by rw [singleRat_maxFrameMs])

theorem FrameTimer.new_lastMs : FrameTimer.new.lastMs = minFrameMs := rfl

/-- One reading of the clock reports a frame time in `[1, 100]`, and keeps it as the last
report, if the last report was in that range. -/
theorem FrameTimer.elapsed_frame (t : FrameTimer) (now : UInt64) (h : PosIn 1 100 t.lastMs) :
    PosIn 1 100 (t.elapsed now).1 ∧ PosIn 1 100 (t.elapsed now).2.lastMs := by
  unfold FrameTimer.elapsed
  dsimp only
  generalize narrow (doubleOfInt (satSub now t.lastNs).toNat / 1000000.0) = ms
  split
  · exact ⟨h, h⟩
  · rename_i hlo
    have hms : PosIn 1 100 (if ms < maxFrameMs then ms else maxFrameMs) := by
      split
      · rename_i hhi
        have hfin := isFinite_of_not_lt_of_lt posIn_minFrameMs.isFinite
          posIn_maxFrameMs.isFinite hlo hhi
        have h₁ := (not_congr (lt_iff_singleRat_lt hfin posIn_minFrameMs.isFinite)).1 hlo
        have h₂ := (lt_iff_singleRat_lt hfin posIn_maxFrameMs.isFinite).1 hhi
        rw [singleRat_minFrameMs] at h₁
        rw [singleRat_maxFrameMs] at h₂
        exact posIn_of_singleRat hfin one_pos (not_lt.1 h₁) h₂.le
      · exact posIn_maxFrameMs
    exact ⟨hms, hms⟩

namespace Engine

/-- What a cycle does to the frame timer: a call that gets past the exactness check reads the
clock, every other call leaves the timer alone. -/
theorem process_timer (e : Engine) (s : RawSample) :
    (e.process s).2.timer =
      if e.usable && s.isFloatExact then (e.timer.elapsed e.clockNs).2 else e.timer := by
  cases hu : e.usable
  · rw [process_unusable e s hu]
    rfl
  · cases hx : s.isFloatExact
    · rw [process_inexact e s hu hx]
      rfl
    · rw [process_exact e s hu hx]
      split <;> rfl

/-- Over any run, an engine whose last frame report is in `[1, 100]` keeps one, and every call
of the run finds one. -/
theorem timer_along_run (e : Engine) (ops : List HostOp) (h : PosIn 1 100 e.timer.lastMs) :
    PosIn 1 100 (e.run ops).timer.lastMs ∧ ∀ c ∈ e.calls ops, PosIn 1 100 c.engine.timer.lastMs := by
  induction ops using List.reverseRecOn with
  | nil => exact ⟨h, by simp⟩
  | append_singleton ops op ih =>
    obtain ⟨ih₁, ih₂⟩ := ih
    rcases run_snoc_cases e ops op with ⟨s, -, hc, hr⟩ | ⟨hc, hf⟩
    · rw [hc, hr, process_timer]
      refine ⟨?_, fun c hm => ?_⟩
      · split
        · exact (FrameTimer.elapsed_frame _ _ ih₁).2
        · exact ih₁
      · rcases List.mem_append.1 hm with hm | hm
        · exact ih₂ c hm
        · rw [List.mem_singleton.1 hm]
          exact ih₁
    · rw [hc, hf.timer]
      exact ⟨ih₁, ih₂⟩

theorem init_timer (p : ParamSet) (surface : Surface) (clock : UInt64) (usable : Bool) :
    (Engine.init p surface clock usable).timer = FrameTimer.new := rfl

theorem frame_time_in_range (p : ParamSet) (surface : Surface) (clock : UInt64) (usable : Bool)
    (ops : List HostOp) :
    ∀ c ∈ (Engine.init p surface clock usable).calls ops,
      PosIn 1 100 (c.engine.timer.elapsed c.engine.clockNs).1 := by
  intro c hc
  have h0 : PosIn 1 100 (Engine.init p surface clock usable).timer.lastMs := by
    rw [init_timer, FrameTimer.new_lastMs]
    exact posIn_minFrameMs
  exact (FrameTimer.elapsed_frame _ _ ((timer_along_run _ ops h0).2 c hc)).1

end Engine

end PointerAccel
