import Sonda.Proof.Acquire.CaptureText
import Sonda.Proof.Compiler.Circular
import Sonda.Proof.Compiler.FlapCrossings
import Sonda.Proof.Compiler.Offsets
import Sonda.Proof.Compiler.PhaseOffsets
import Sonda.Proof.Compiler.TickCrossings
import Sonda.Proof.Config.Labels
import Sonda.Proof.Config.Overlaps
import Sonda.Proof.Config.SnmpCollision
import Sonda.Proof.Generator.BucketLabels
import Sonda.Proof.Generator.LogTemplate
import Sonda.Proof.Gnmi.Matcher
import Sonda.Proof.Gnmi.PathRoundTrip
import Sonda.Proof.Gnmi.Publishers
import Sonda.Proof.Schedule.BaseInterval
import Sonda.Proof.Schedule.Silence
import Sonda.Proof.Schedule.CloseEmit
import Sonda.Proof.Schedule.TickNumbers
import Sonda.Proof.Schedule.BusLevels
import Sonda.Proof.Schedule.Agreement
import Sonda.Proof.Server.RegistryLocks
import Sonda.Proof.Server.Ownership
import Sonda.Proof.Server.Resolution
import Sonda.Proof.Server.Admission
import Sonda.Proof.Snmp.AnswersV1
import Sonda.Proof.Snmp.Bulk
import Sonda.Proof.Snmp.Companions
import Sonda.Proof.Snmp.Counts
import Sonda.Proof.Snmp.OidCodec
import Sonda.Proof.Snmp.Sizes
import Sonda.Proof.Snmp.V3RoundTrip
import Sonda.Proof.Snmp.Walk
import Sonda.Proof.Encoder.PrometheusText
import Sonda.Proof.Sink.PrometheusProto
import Sonda.Proof.Verify.Verdicts
