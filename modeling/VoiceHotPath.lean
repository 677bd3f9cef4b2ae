import VoiceHotPath.Vad.ChunkAudio
import VoiceHotPath.Vad.Gaps
import VoiceHotPath.Vad.Coverage
import VoiceHotPath.Vad.Segmentation
import VoiceHotPath.Vad.Isolation
import VoiceHotPath.Session.Histories
import VoiceHotPath.Session.Isolation
import VoiceHotPath.Consumer.ChunkIdentity
import VoiceHotPath.Ring.Fifo
import VoiceHotPath.Consumer.Wire
import VoiceHotPath.Consumer.UdsIngest
import VoiceHotPath.Vad.Agreement
import VoiceHotPath.Vad.Genuine
import VoiceHotPath.Session.Storage
import VoiceHotPath.Session.Published
import VoiceHotPath.Consumer.Journal
import VoiceHotPath.Consumer.EndpointLag
import VoiceHotPath.Consumer.Interleaving
import VoiceHotPath.Consumer.PayloadReads
import VoiceHotPath.Consumer.WireEncoding
import VoiceHotPath.Consumer.HotThread
import VoiceHotPath.Consumer.Sequential
import VoiceHotPath.Consumer.Publisher
import VoiceHotPath.Consumer.OpenChunks
import VoiceHotPath.Consumer.Conservation
import VoiceHotPath.Consumer.SendLoop
import VoiceHotPath.Consumer.LossAccounting
import VoiceHotPath.Vad.BufferRoom
import VoiceHotPath.Vad.LongestChunk
import VoiceHotPath.Consumer.SteadyCall
import VoiceHotPath.Consumer.ChunkBuffer
import VoiceHotPath.Histogram.Layout
import VoiceHotPath.Lib.OrderStatistic
import VoiceHotPath.Histogram.Quantiser
import VoiceHotPath.Histogram.Recording
import VoiceHotPath.Histogram.Backfill
import VoiceHotPath.Histogram.Merge
import VoiceHotPath.Histogram.ExactIndex
import VoiceHotPath.Histogram.Percentiles
import VoiceHotPath.Histogram.Mean
import VoiceHotPath.Lib.BoundedFill
import VoiceHotPath.Vad.Hangover
import VoiceHotPath.Vad.Splice
import VoiceHotPath.Codec
import VoiceHotPath.Lib.ProbeLoad
import VoiceHotPath.Ring.Depth
import VoiceHotPath.Session.ProbeChains
import VoiceHotPath.Rng
import VoiceHotPath.Consumer.SocketProcess
import VoiceHotPath.Ring.Attachment
import VoiceHotPath.Consumer.WriteAll
import VoiceHotPath.Vad.HangoverSweep
import VoiceHotPath.Consumer.Stdout
import VoiceHotPath.Histogram.Csv
import VoiceHotPath.Producer.NoiseFloor
import VoiceHotPath.Consumer.Undisturbed
import VoiceHotPath.Consumer.Shutdown
import VoiceHotPath.Consumer.Cadence
import VoiceHotPath.Consumer.Occupancy
import VoiceHotPath.Producer.Pacing
import VoiceHotPath.Consumer.EndpointDelay
import VoiceHotPath.EnergyWords
import VoiceHotPath.Transcoding
import VoiceHotPath.Producer.NodeReport
