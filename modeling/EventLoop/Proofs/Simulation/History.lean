import EventLoop.Simulation.Ticker

/-!
# The history of a handle

The *history* of a handle is the list of all actions on it so far.  What a
ticker has to know about its handle can be read off the history: whether the
handle is gone, whether the ticker is to stop or to pause, and the last valid
speed.  Nothing that comes after the handle is given up is heard.

Two histories `Agree` if they answer these questions alike.  A pause that is
resumed in time and an invalid speed change no answer, so lists of actions that
differ in such actions only are `Alike`: they agree after any history in which a
paused handle is given up (`Alike.agree`).
-/

namespace EventLoop

namespace HandleAction

def isDrop : HandleAction → Bool
  | .drop => true
  | _ => false

def isStop : HandleAction → Bool
  | .stop => true
  | _ => false

/-- Whether the action pauses or resumes. -/
def pausing? : HandleAction → Option Bool
  | .pause => some true
  | .resume => some false
  | _ => none

/-- The valid speed that the action sets. -/
def speed? : HandleAction → Option Float
  | .speed value => if isValidSpeed value then some value else none
  | _ => none

end HandleAction

namespace History

variable {α : Type} {history other later : List HandleAction}
  (reading : HandleAction → Option α)

/-- The actions before the handle is given up. -/
def heard (history : List HandleAction) : List HandleAction :=
  history.takeWhile (!·.isDrop)

/-- The last of what the heard actions say. -/
def last? (history : List HandleAction) : Option α :=
  ((heard history).filterMap reading).getLast?

def isGone (history : List HandleAction) : Bool :=
  history.any (·.isDrop)

def isStopped (history : List HandleAction) : Bool :=
  (heard history).any (·.isStop)

def isPaused (history : List HandleAction) : Bool :=
  (last? (·.pausing?) history).getD false

def lastSpeed? (history : List HandleAction) : Option Float :=
  last? (·.speed?) history

/-- Gives up a handle that is left paused. -/
def close (history : List HandleAction) : List HandleAction :=
  if isPaused history then history ++ [.drop] else history

theorem heard_append_of_isGone (h : isGone history = true) (later : List HandleAction) :
    heard (history ++ later) = heard history := by
  induction history with
  | nil => contradiction
  | cons action rest ih =>
      cases hdrop : action.isDrop with
      | true => simp [heard, hdrop]
      | false =>
          have hrest : isGone rest = true := by simpa [isGone, hdrop] using h
          simpa [heard, hdrop] using ih hrest

theorem heard_append (h : isGone history = false) (later : List HandleAction) :
    heard (history ++ later) = history ++ heard later := by
  refine List.takeWhile_append_of_pos ?_
  simpa [isGone] using h

theorem heard_of_not_isGone (h : isGone history = false) : heard history = history := by
  calc heard history
      = heard (history ++ []) := by rw [List.append_nil]
    _ = history ++ heard [] := heard_append h []
    _ = history := List.append_nil history

theorem last?_append (h : isGone history = false) (later : List HandleAction) :
    last? reading (history ++ later) = (last? reading later).or (last? reading history) := by
  rw [last?, heard_append h, List.filterMap_append, List.getLast?_append, last?, last?,
    heard_of_not_isGone h]

theorem isGone_append (history later : List HandleAction) :
    isGone (history ++ later) = (isGone history || isGone later) :=
  List.any_append

theorem isStopped_append (h : isGone history = false) (later : List HandleAction) :
    isStopped (history ++ later) = (isStopped history || isStopped later) := by
  rw [isStopped, heard_append h, List.any_append, isStopped, isStopped, heard_of_not_isGone h]

theorem isPaused_append (h : isGone history = false) (later : List HandleAction) :
    isPaused (history ++ later) = (last? (·.pausing?) later).getD (isPaused history) := by
  rw [isPaused, last?_append _ h]
  cases last? (·.pausing?) later <;> rfl

theorem lastSpeed?_append (h : isGone history = false) (later : List HandleAction) :
    lastSpeed? (history ++ later) = (lastSpeed? later).or (lastSpeed? history) :=
  last?_append _ h later

theorem last?_singleton (hdrop : reading .drop = none) (action : HandleAction) :
    last? reading [action] = reading action := by
  cases action with
  | drop => rw [hdrop]; rfl
  | pause | resume | stop | speed value =>
      cases hread : reading _ <;> simp [last?, heard, HandleAction.isDrop, hread]

theorem last?_cons {action : HandleAction} (hdrop : action.isDrop = false)
    (later : List HandleAction) :
    last? reading (action :: later) = (last? reading later).or (reading action) := by
  have hheard : heard (action :: later) = action :: heard later := by simp [heard, hdrop]
  rw [last?, hheard, ← List.singleton_append, List.filterMap_append, List.getLast?_append]
  cases hread : reading action <;> simp [hread, last?]

theorem isStopped_cons {action : HandleAction} (hdrop : action.isDrop = false)
    (later : List HandleAction) :
    isStopped (action :: later) = (action.isStop || isStopped later) := by
  simp [isStopped, heard, hdrop]

theorem lastSpeed?_cons {action : HandleAction} (hdrop : action.isDrop = false)
    (later : List HandleAction) :
    lastSpeed? (action :: later) = (lastSpeed? later).or action.speed? :=
  last?_cons _ hdrop later

/-- Two histories that answer every question alike. -/
structure Agree (history other : List HandleAction) : Prop where
  gone : isGone history = isGone other
  paused : isPaused history = isPaused other
  stopped : isStopped history = isStopped other
  speed : lastSpeed? history = lastSpeed? other

/-- Nothing is heard of a handle that is gone. -/
theorem Agree.of_isGone (h : isGone history = true) (later : List HandleAction) :
    Agree history (history ++ later) := by
  have hheard := heard_append_of_isGone h later
  refine ⟨?_, ?_, ?_, ?_⟩
  · rw [isGone_append, h, Bool.true_or]
  · rw [isPaused, isPaused, last?, last?, hheard]
  · rw [isStopped, isStopped, hheard]
  · rw [lastSpeed?, lastSpeed?, last?, last?, hheard]

/-- If the handle is paused, it is gone. -/
def Settled (history : List HandleAction) : Prop :=
  isPaused history = true → isGone history = true

theorem settled_close (history : List HandleAction) : Settled (close history) := by
  intro hpaused
  unfold close at hpaused ⊢
  split at hpaused
  next h =>
    rw [if_pos h, isGone_append]
    exact Bool.or_true _
  next h => exact absurd hpaused h

theorem Settled.not_isPaused (h : Settled history) (hgone : isGone history = false) :
    isPaused history = false := by
  cases hpaused : isPaused history with
  | false => rfl
  | true => exact (h hpaused).symm.trans hgone

theorem Settled.append (h : Settled history) (hlater : Settled later) :
    Settled (history ++ later) := by
  intro hpaused
  rw [isGone_append]
  cases hgone : isGone history with
  | true => rfl
  | false =>
      rw [isPaused_append hgone, h.not_isPaused hgone] at hpaused
      rw [hlater hpaused]
      rfl

namespace Agree

theorem refl (history : List HandleAction) : Agree history history :=
  ⟨rfl, rfl, rfl, rfl⟩

theorem symm (h : Agree history other) : Agree other history :=
  ⟨h.gone.symm, h.paused.symm, h.stopped.symm, h.speed.symm⟩

theorem trans {third : List HandleAction} (h : Agree history other) (hother : Agree other third) :
    Agree history third :=
  ⟨h.gone.trans hother.gone, h.paused.trans hother.paused, h.stopped.trans hother.stopped,
    h.speed.trans hother.speed⟩

/-- A pause leaves no trace once it is resumed. -/
theorem resumed (h : Settled history) {between : List HandleAction}
    (hgone : isGone between = false) (hpaused : isPaused between = false)
    (later : List HandleAction) :
    Agree (history ++ .pause :: (between ++ .resume :: later)) (history ++ (between ++ later)) := by
  cases hhistory : isGone history with
  | true => exact (of_isGone hhistory _).symm.trans (of_isGone hhistory _)
  | false =>
      refine ⟨?_, ?_, ?_, ?_⟩
      · simp [isGone, HandleAction.isDrop]
      · rw [isPaused_append hhistory, isPaused_append hhistory, h.not_isPaused hhistory,
          last?_cons _ rfl, last?_append _ hgone, last?_append _ hgone, last?_cons _ rfl]
        rw [isPaused] at hpaused
        -- the resume is the last word, or something after it is
        cases last? (·.pausing?) later with
        | some paused => rfl
        | none => exact hpaused.symm
      · rw [isStopped_append hhistory, isStopped_append hhistory, isStopped_cons rfl,
          isStopped_append hgone, isStopped_append hgone, isStopped_cons rfl]
        rfl
      · rw [lastSpeed?_append hhistory, lastSpeed?_append hhistory, lastSpeed?_cons rfl,
          lastSpeed?_append hgone, lastSpeed?_append hgone, lastSpeed?_cons rfl]
        simp [HandleAction.speed?]

/-- An invalid speed leaves no trace. -/
theorem ignored (history later : List HandleAction) {speed : Float}
    (hspeed : isValidSpeed speed = false) :
    Agree (history ++ .speed speed :: later) (history ++ later) := by
  cases hhistory : isGone history with
  | true => exact (of_isGone hhistory _).symm.trans (of_isGone hhistory _)
  | false =>
      refine ⟨?_, ?_, ?_, ?_⟩
      · simp [isGone, HandleAction.isDrop]
      · rw [isPaused_append hhistory, isPaused_append hhistory, last?_cons _ rfl]
        simp [HandleAction.pausing?]
      · rw [isStopped_append hhistory, isStopped_append hhistory, isStopped_cons rfl]
        rfl
      · rw [lastSpeed?_append hhistory, lastSpeed?_append hhistory, lastSpeed?_cons rfl]
        simp [HandleAction.speed?, hspeed]

end Agree

/-- The second list has the actions of the first, except for some pauses that
are resumed in time and some invalid speeds. -/
inductive Alike : List HandleAction → List HandleAction → Prop
  | refl (actions : List HandleAction) : Alike actions actions
  | resumed {earlier between later others : List HandleAction} (settled : Settled earlier)
      (gone : isGone between = false) (paused : isPaused between = false)
      (rest : Alike (earlier ++ (between ++ later)) others) :
      Alike (earlier ++ .pause :: (between ++ .resume :: later)) others
  | ignored {earlier later others : List HandleAction} {speed : Float}
      (invalid : isValidSpeed speed = false) (rest : Alike (earlier ++ later) others) :
      Alike (earlier ++ .speed speed :: later) others

theorem Alike.agree {actions others : List HandleAction} (h : Alike actions others)
    (hhistory : Settled history) : Agree (history ++ actions) (history ++ others) := by
  -- one action or two go at a time, and the rest still agrees
  induction h with
  | refl actions => exact Agree.refl _
  | resumed settled gone paused _ ih =>
      rw [← List.append_assoc] at ih ⊢
      exact (Agree.resumed (hhistory.append settled) gone paused _).trans ih
  | ignored invalid _ ih =>
      rw [← List.append_assoc] at ih ⊢
      exact (Agree.ignored _ _ invalid).trans ih

/-- Nothing was heard that changes the course of a run. -/
structure Idle (history : List HandleAction) : Prop where
  paused : isPaused history = false
  stopped : isStopped history = false
  speed : lastSpeed? history = none

theorem Idle.append (h : Idle history) (hlater : Idle later) : Idle (history ++ later) := by
  cases hgone : isGone history with
  | true =>
      have hagree := Agree.of_isGone hgone later
      exact ⟨hagree.paused.symm.trans h.paused, hagree.stopped.symm.trans h.stopped,
        hagree.speed.symm.trans h.speed⟩
  | false =>
      refine ⟨?_, ?_, ?_⟩
      · rw [isPaused_append hgone, h.paused]
        exact hlater.paused
      · rw [isStopped_append hgone, h.stopped, hlater.stopped]
        rfl
      · rw [lastSpeed?_append hgone, h.speed, hlater.speed]
        rfl

theorem Idle.close (h : Idle history) : Idle (close history) := by
  rw [History.close, if_neg (by rw [h.paused]; exact Bool.false_ne_true)]
  exact h

end History

end EventLoop
