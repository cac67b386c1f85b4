import CoSimBridge.Delivery.Buffer
import CoSimBridge.Number.Text
/-!
The bridge's metrics.

Per channel (a data topic, CAN controller or remote function queue) they count the messages a
delivery buffer received, superseded, discarded and delivered, the buckets it holds, and the
messages sent to the bus. Per session they count the completed steps and keep the simulation
time reached. A channel's series exists from the first time it is touched, even by adding zero;
the session's series always exist.

Samples are listed by metric name and then by channel, the way a metrics registry gathers them.
-/

namespace CoSimBridge

/-- The recorded metrics. -/
structure Metrics where
  /-- Channel series: metric name, channel and value, in the order they were first touched. -/
  series : List (String × String × Float) := []
  steps : Float := 0
  /-- The number of step durations observed. -/
  durations : Nat := 0
  simulationTime : Float := 0
deriving Inhabited

namespace Metrics

/-- The common prefix of every metric name. -/
def family (subsystem name : String) : String := "fmubridge_" ++ subsystem ++ "_" ++ name

/-- Changes the value of a channel series, creating it at zero first. -/
def update (m : Metrics) (metric channel : String) (f : Float → Float) : Metrics :=
  if m.series.any fun (n, c, _) => n == metric && c == channel then
    { m with series := m.series.map fun (n, c, v) =>
        if n == metric && c == channel then (n, c, f v) else (n, c, v) }
  else { m with series := m.series ++ [(metric, channel, f 0)] }

/-- Records what a delivery buffer of a channel reported. -/
def observe (m : Metrics) (channel : String) : Delivery.Report → Metrics
  | .received => m.update (family "delivery" "received_total") channel (· + 1)
  | .superseded => m.update (family "delivery" "superseded_total") channel (· + 1)
  | .discarded => m.update (family "delivery" "discarded_total") channel (· + 1)
  | .delivered n => m.update (family "delivery" "delivered_total") channel (· + n.toFloat)
  | .depth n => m.update (family "delivery" "buckets") channel fun _ => n.toFloat

/-- Records reports in order. -/
def observeAll (m : Metrics) (channel : String) (rs : List Delivery.Report) : Metrics :=
  rs.foldl (fun m r => m.observe channel r) m

/-- Counts `n` messages sent on a channel. -/
def published (m : Metrics) (channel : String) (n : Nat) : Metrics :=
  m.update (family "bus" "published_total") channel (· + n.toFloat)

/-- Records a completed step that reached time `t`. -/
def stepCompleted (m : Metrics) (t : Float) : Metrics :=
  { m with steps := m.steps + 1, durations := m.durations + 1, simulationTime := t }

/-- Every sample: metric name, label text (`channel=…`, or empty) and value text. Step durations
show only their count. -/
def samples (m : Metrics) : List (String × String × String) :=
  let channel := (m.series.map fun (n, c, v) => (n, "channel=" ++ c, v.render))
  let session :=
    [(family "session" "simulation_time_seconds", "", m.simulationTime.render),
     (family "session" "step_duration_seconds", "", "count=" ++ toString m.durations),
     (family "session" "steps_total", "", m.steps.render)]
  (channel ++ session).mergeSort fun (a, la, _) (b, lb, _) => a < b || (a == b && la ≤ lb)

end Metrics

end CoSimBridge
