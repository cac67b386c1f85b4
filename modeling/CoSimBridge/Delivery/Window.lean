import CoSimBridge.Number.Text
/-!
Step windows: while a session steps from `now` to `next`, messages stamped up to `next` belong
to the coming step, later ones to a step after it.
-/

namespace CoSimBridge.Delivery

/-- The window of the step in progress. The zero window is where every window starts. -/
structure Window where
  now : Float := 0
  next : Float := 0
deriving Inhabited

/-- The window as text: `[now=0 next=0.1]`. -/
def Window.toText (w : Window) : String :=
  "[now=" ++ w.now.render ++ " next=" ++ w.next.render ++ "]"

end CoSimBridge.Delivery
