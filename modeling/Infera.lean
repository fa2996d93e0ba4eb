import Infera.Kvd.LeaseCommit
import Infera.Kvd.CrashRestore
import Infera.Kvd.TornTail
import Infera.Router.PrefixHits
import Infera.Router.SeededViews
import Infera.Router.FlushRequest
import Infera.Kvd.TierFreshness
import Infera.Router.Resubscription
import Infera.Router.Affinity
import Infera.Vllm.SaveCompleteness
import Infera.Vllm.AsyncReceive
import Infera.TaskGraph.Budget
import Infera.Monitor.Pusher
import Infera.Handoff.Publication
import Infera.Handoff.Verdicts
import Infera.Validator.Strictness
import Infera.TaskGraph.UnfoldClosed
import Infera.TaskGraph.History
import Infera.TaskGraph.Completions
import Infera.EnvMgr.Grants
import Infera.EnvMgr.Layout
import Infera.Anthropic.Messages
import Infera.Router.NatsTransport
import Infera.Kvd.RejectedSets
import Infera.Kvd.ArenaPrediction
import Infera.Kvd.MultiPool
import Infera.Kvd.ArenaVersions
import Infera.Kv.ProbeDedup
import Infera.Kvd.SsdAccounting
import Infera.Kvd.Striped
import Infera.Router.TwinClients
import Infera.Sglang.PoolPrefix
import Infera.Router.Continuations
