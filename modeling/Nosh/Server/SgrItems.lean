import Nosh.Server.Terminal

/-!
# Items of an SGR sequence

An SGR sequence is a list of items: a single code, or an extended colour. An extended colour may be
spelt with semicolons (`38;5;n`, `38;2;r;g;b`), where its parts are parameters of their own, or with
colons (`38:5:n`, `38:2:r:g:b`), where it is one parameter with subparameters.

`handle_sgr` looks at the first value of each parameter only. A colour that is spelt with colons
looks like a colour whose parts are still to come, and takes the parameters that follow it for
these parts.

## Main Definitions

* `SgrItem` — the items, in both spellings
* `SgrPhase`, `Complete` — what the loop waits for after some parameters

## Main Results

* `sgrLoop_append` — after a complete list the loop starts afresh.
* `handleSgr_append_iff` — **a list of items can be followed by any other exactly when it is
  complete.**
-/

namespace Nosh.Server

open Lib Proto TerminalState

/-! ## Items -/

/-- Which colour an extended colour sets. -/
inductive SgrLayer
  | foreground
  | background
  deriving DecidableEq, Repr

/-- The code of the layer. -/
def SgrLayer.code : SgrLayer → ℕ
  | .foreground => 38
  | .background => 48

/-- An item of an SGR sequence. -/
inductive SgrItem
  | code (value : UInt16) (single : value ≠ 38 ∧ value ≠ 48)
  /-- `38;5;n` -/
  | indexed (layer : SgrLayer) (index : UInt16)
  /-- `38;2;r;g;b` -/
  | direct (layer : SgrLayer) (red green blue : UInt16)
  /-- `38:5:n`, `38:2:r:g:b` -/
  | colons (layer : SgrLayer) (kind : UInt16) (values : List UInt16)
  deriving DecidableEq

namespace SgrItem

/-- The parameters of an item, as `vte` delivers them. -/
def params : SgrItem → List Param
  | .code value _ => [(value.toNat, [])]
  | .indexed layer index => [(layer.code, []), (5, []), (index.toNat, [])]
  | .direct layer red green blue =>
      [(layer.code, []), (2, []), (red.toNat, []), (green.toNat, []), (blue.toNat, [])]
  | .colons layer kind values => [(layer.code, kind.toNat :: values.map UInt16.toNat)]

end SgrItem

/-- The parameters of some items. -/
def sgrParams (items : List SgrItem) : List Param := items.flatMap SgrItem.params

/-! ## What the loop waits for -/

/-- What the loop takes the next parameter for. -/
inductive SgrPhase
  /-- A code. -/
  | idle
  /-- The kind of an extended colour. -/
  | kind (layer : SgrLayer)
  /-- An index. -/
  | index (layer : SgrLayer)
  /-- A part of a colour, which others follow. -/
  | part (more : ℕ)
  deriving DecidableEq, Repr

namespace SgrPhase

/-- What the loop waits for after a parameter. -/
def next (phase : SgrPhase) (param : Param) : SgrPhase :=
  match phase with
  | .idle =>
      if param.1 = 38 then .kind .foreground else if param.1 = 48 then .kind .background else .idle
  | .kind layer => if param.1 = 5 then .index layer else if param.1 = 2 then .part 2 else .idle
  | .index _ => .idle
  | .part 0 => .idle
  | .part (more + 1) => .part more

/-- What a parameter does. -/
def apply (phase : SgrPhase) (param : Param) (sgr : SgrState) : SgrState :=
  match phase with
  | .idle => if param.1 = 38 ∨ param.1 = 48 then sgr else sgrCode param.1 sgr
  | .index layer =>
      if 255 < param.1 then sgr
      else
        match layer with
        | .foreground => { sgr with fg := some param.1.toUInt8 }
        | .background => { sgr with bg := some param.1.toUInt8 }
  | .kind _ | .part _ => sgr

/-- The parameters one after the other. -/
def run : SgrPhase → List Param → SgrState → SgrState
  | _, [], sgr => sgr
  | phase, param :: params, sgr => (phase.next param).run params (phase.apply param sgr)

theorem run_append (phase : SgrPhase) (params more : List Param) (sgr : SgrState) :
    phase.run (params ++ more) sgr = (params.foldl next phase).run more (phase.run params sgr) := by
  induction params generalizing phase sgr with
  | nil => rfl
  | cons param params ih => exact ih (phase.next param) (phase.apply param sgr)

/-- In the middle of an extended colour no parameter changes the style. -/
theorem apply_style {phase : SgrPhase} (h : phase ≠ .idle) (param : Param) (sgr : SgrState) :
    (phase.apply param sgr).style = sgr.style := by
  cases phase with
  | idle => exact (h rfl).elim
  | index layer =>
      change (if 255 < param.1 then sgr else _).style = sgr.style
      split
      · rfl
      · cases layer <;> rfl
  | kind | part => rfl

end SgrPhase

namespace SgrPhase

variable {param : Param} (params : List Param) (sgr : SgrState)

theorem run_code (h : ¬ (param.1 = 38 ∨ param.1 = 48)) :
    idle.run (param :: params) sgr = idle.run params (sgrCode param.1 sgr) := by
  obtain ⟨hfg, hbg⟩ := not_or.mp h
  rw [run, next, if_neg hfg, if_neg hbg, apply, if_neg h]

theorem run_layer (h : param.1 = 38 ∨ param.1 = 48) :
    idle.run (param :: params) sgr =
      (kind (if param.1 = 38 then .foreground else .background)).run params sgr := by
  rw [run, next, apply, if_pos h]
  by_cases hfg : param.1 = 38
  · rw [if_pos hfg, if_pos hfg]
  · rw [if_neg hfg, if_neg hfg, if_pos (h.resolve_left hfg)]

variable (layer : SgrLayer)

theorem run_indexed (h : param.1 = 5) :
    (kind layer).run (param :: params) sgr = (index layer).run params sgr := by
  rw [run, next, if_pos h, apply]

theorem run_direct (h : param.1 = 2) :
    (kind layer).run (param :: params) sgr = (part 2).run params sgr := by
  have hother : ¬ param.1 = 5 := by omega
  rw [run, next, if_neg hother, if_pos h, apply]

theorem run_unknown (hindexed : ¬ param.1 = 5) (hdirect : ¬ param.1 = 2) :
    (kind layer).run (param :: params) sgr = idle.run params sgr := by
  rw [run, next, if_neg hindexed, if_neg hdirect, apply]

end SgrPhase

open SgrPhase in
/-- **The loop of `handle_sgr` is an automaton** that takes one parameter after the other. -/
theorem sgrLoop_eq_run (params : List Param) (sgr : SgrState) :
    sgrLoop params sgr = idle.run params sgr := by
  fun_induction sgrLoop params sgr with
  | case1 sgr => rfl
  | case2 param sgr hlayer => rw [run_layer _ _ hlayer, run]
  | case3 param sgr hlayer kind hkind =>
      rw [run_layer _ _ hlayer, run_indexed _ _ _ hkind, run]
  | case4 param sgr hlayer kind hkind color rest ih =>
      rw [ih, run_layer _ _ hlayer, run_indexed _ _ _ hkind, run]
      by_cases hfg : param.1 = 38
      · rw [if_pos hfg, if_pos hfg]
        rfl
      · rw [if_neg hfg, if_neg hfg]
        rfl
  | case5 param sgr hlayer kind hindexed hkind red green blue rest ih =>
      rw [ih, run_layer _ _ hlayer, run_direct _ _ _ hkind]
      rfl
  | case6 param sgr hlayer kind rest hindexed hkind hshort =>
      -- parts that are missing change nothing
      rw [run_layer _ _ hlayer, run_direct _ _ _ hkind]
      match rest with
      | [] | [_] | [_, _] => rfl
      | red :: green :: blue :: rest => exact (hshort red green blue rest rfl).elim
  | case7 param sgr hlayer kind rest hindexed hdirect ih =>
      rw [ih, run_layer _ _ hlayer, run_unknown _ _ _ hindexed hdirect]
  | case8 param rest sgr hcode ih => rw [ih, run_code _ _ hcode]

/-- The loop is not in the middle of an extended colour after the parameters. -/
def Complete (params : List Param) : Prop := params.foldl SgrPhase.next .idle = .idle

instance (params : List Param) : Decidable (Complete params) :=
  inferInstanceAs (Decidable (_ = _))

/-- After a complete list the loop starts afresh. -/
theorem sgrLoop_append {params : List Param} (h : Complete params) (more : List Param)
    (sgr : SgrState) : sgrLoop (params ++ more) sgr = sgrLoop more (sgrLoop params sgr) := by
  rw [sgrLoop_eq_run, sgrLoop_eq_run, sgrLoop_eq_run, SgrPhase.run_append]
  unfold Complete at h
  rw [h]

/-- In the middle of an extended colour a code is not taken for one. -/
theorem sgrLoop_append_style {params : List Param} (h : ¬ Complete params) (param : Param)
    (sgr : SgrState) :
    (sgrLoop (params ++ [param]) sgr).style = (sgrLoop params sgr).style := by
  rw [sgrLoop_eq_run, sgrLoop_eq_run, SgrPhase.run_append, SgrPhase.run, SgrPhase.run]
  exact SgrPhase.apply_style h param _

theorem not_layer_of_single {value : UInt16} (single : value ≠ 38 ∧ value ≠ 48) :
    ¬ (value.toNat = 38 ∨ value.toNat = 48) := by
  rintro (hvalue | hvalue)
  · exact single.1 (UInt16.toNat_inj.mp hvalue)
  · exact single.2 (UInt16.toNat_inj.mp hvalue)

/-! ## Sequences of items -/

theorem sgrParams_ne_nil {items : List SgrItem} (h : items ≠ []) : sgrParams items ≠ [] := by
  cases items with
  | nil => exact (h rfl).elim
  | cons item items => cases item <;> exact List.cons_ne_nil _ _

theorem handleSgr_of_ne_nil {params : List Param} (h : params ≠ []) (t : TerminalState) :
    t.handleSgr params = { t with sgr := sgrLoop params t.sgr } := by
  unfold handleSgr
  rw [List.isEmpty_eq_false_iff.mpr h, if_neg Bool.false_ne_true]

/-- No style is both with and without a bit. -/
theorem or_ne_and_not_bold (bits : UInt8) :
    ¬ (bits = bits ||| CellStyle.bold ∧ bits = bits &&& ~~~ CellStyle.bold) := by
  rintro ⟨hbold, hplain⟩
  have hset : bits.toBitVec.getLsbD 0 = true := by
    rw [hbold]
    simp [CellStyle.bold]
  have hcleared : bits.toBitVec.getLsbD 0 = false := by
    rw [hplain]
    simp [CellStyle.bold]
  rw [hset] at hcleared
  cases hcleared

/-- **A list of items can be followed by any other exactly when it is complete.** -/
theorem handleSgr_append_iff {items : List SgrItem} (hitems : items ≠ []) :
    (∀ more : List SgrItem, more ≠ [] → ∀ t : TerminalState,
      t.handleSgr (sgrParams items ++ sgrParams more) =
        (t.handleSgr (sgrParams items)).handleSgr (sgrParams more)) ↔
      Complete (sgrParams items) := by
  have hne := sgrParams_ne_nil hitems
  constructor
  · intro h
    by_contra hopen
    have hstyle : ∀ (value : UInt16) (single : value ≠ 38 ∧ value ≠ 48),
        (sgrLoop (sgrParams items) .default).style =
          (sgrCode value.toNat (sgrLoop (sgrParams items) .default)).style := by
      intro value single
      have hboth := h [.code value single] (List.cons_ne_nil _ _) (.new 1 1)
      have hmore : sgrParams [.code value single] = [(value.toNat, [])] := rfl
      rw [hmore, handleSgr_of_ne_nil (List.append_ne_nil_of_left_ne_nil hne _),
        handleSgr_of_ne_nil hne, handleSgr_of_ne_nil (List.cons_ne_nil _ _)] at hboth
      have hsgr : sgrLoop (sgrParams items ++ [(value.toNat, [])]) .default =
          sgrLoop [(value.toNat, [])] (sgrLoop (sgrParams items) .default) :=
        congrArg TerminalState.sgr hboth
      rw [← sgrLoop_append_style hopen (value.toNat, []), hsgr, sgrLoop_eq_run [(value.toNat, [])],
        SgrPhase.run_code _ _ (not_layer_of_single single), SgrPhase.run]
    have hbold := congrArg CellStyle.bits (hstyle 1 (by decide))
    have hplain := congrArg CellStyle.bits (hstyle 22 (by decide))
    exact or_ne_and_not_bold _ ⟨hbold, hplain⟩
  · intro h more hmore t
    have happend : sgrParams items ++ sgrParams more ≠ [] := List.append_ne_nil_of_left_ne_nil hne _
    rw [handleSgr_of_ne_nil happend, handleSgr_of_ne_nil hne,
      handleSgr_of_ne_nil (sgrParams_ne_nil hmore), sgrLoop_append h]

/-- A palette colour spelt with semicolons, and then bold. -/
theorem handleSgr_append_semicolons :
    (TerminalState.new 1 1).handleSgr (sgrParams [.indexed .foreground 1] ++ [(1, [])]) =
      ((TerminalState.new 1 1).handleSgr (sgrParams [.indexed .foreground 1])).handleSgr
        [(1, [])] := by
  have hcomplete : Complete (sgrParams [.indexed .foreground 1]) := by decide
  exact (handleSgr_append_iff (List.cons_ne_nil _ _)).mpr hcomplete [.code 1 (by decide)]
    (List.cons_ne_nil _ _) (.new 1 1)

/-- **The same colour spelt with colons**: it takes the 1 of bold for its own. -/
theorem colons_take_bold :
    ((TerminalState.new 1 1).handleSgr
        (sgrParams [.colons .foreground 5 [1]] ++ sgrParams [.code 1 (by decide)])).sgr.style =
          CellStyle.none ∧
      (((TerminalState.new 1 1).handleSgr (sgrParams [.colons .foreground 5 [1]])).handleSgr
        (sgrParams [.code 1 (by decide)])).sgr.style = ⟨CellStyle.bold⟩ :=
  ⟨by decide, by decide⟩

end Nosh.Server
