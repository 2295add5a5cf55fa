import BibiCore.Base.TransitionSystem
import BibiCore.Base.Chan
import BibiCore.Base.ListUpdate
import BibiCore.Proto
import BibiCore.Gateway.ClientStream
import BibiCore.Gateway.Clients
import BibiCore.Session.State
import BibiCore.Session.ReadPump
import BibiCore.Session.AudioSendWorker
import BibiCore.Session.Transcripts
import BibiCore.Session.LlmEvents
import BibiCore.Session.TtsWorker
import BibiCore.Session.System
import BibiCore.Session.Footprint
import BibiCore.Session.MicPath
import BibiCore.Gateway.Relay
import BibiCore.Session.Chat
import BibiCore.Session.Generations
import BibiCore.Session.Interrupts
import BibiCore.Session.Playback
import BibiCore.Session.Chunks
import BibiCore.Session.Utterances
import BibiCore.Base.Windowing
import BibiCore.Stt.Audio
import BibiCore.Stt.Engine
import BibiCore.Stt.Servicer
import BibiCore.Stt.Finals
import BibiCore.Base.LruCache
import BibiCore.Engine.Manager
import BibiCore.Engine.Holders
import BibiCore.Session.Speech
import BibiCore.Session.TtsStreams
import BibiCore.Session.StaleAudio
import BibiCore.Session.Talk
import BibiCore.Session.Answers
import BibiCore.Session.Attribution
import BibiCore.Session.Residue
import BibiCore.Session.History
import BibiCore.Site.Assistant
import BibiCore.Site.Conversation
import BibiCore.Site.BargeIn
import BibiCore.Stt.Windows
import BibiCore.Base.Strip
import BibiCore.Base.PyStr
import BibiCore.Llm.Chunker
import BibiCore.Llm.Servicer
import BibiCore.Llm.Rebuild
import BibiCore.Gateway.Failures
import BibiCore.Gateway.Delivery
import BibiCore.Session.Quiescence
import BibiCore.Engine.Bookkeeping
import BibiCore.Engine.Capacity
import BibiCore.Engine.Instances
import BibiCore.Tts.AsyncIo
import BibiCore.Tts.Iteration
import BibiCore.Tts.EarlyStop
import BibiCore.Session.SentFrames
import BibiCore.Stt.Framing
import BibiCore.Llm.Ollama
import BibiCore.Llm.Routes
import BibiCore.Llm.Cuts
import BibiCore.Engine.Recency
import BibiCore.Base.Regex
import BibiCore.Tts.Text
import BibiCore.Stt.Conversion
import BibiCore.Stt.Resample
import BibiCore.Stt.Prepared
import BibiCore.Llm.Availability
import BibiCore.Base.PosixPath
import BibiCore.Engine.Paths
import BibiCore.Site.Schedule
import BibiCore.Stt.Codec
import BibiCore.Session.Shutdown
import BibiCore.Session.SpokenAudio
import BibiCore.Session.MicFormat
import BibiCore.Session.Dictation
import BibiCore.Base.LittleEndian
import BibiCore.Base.RiffChunk
import BibiCore.Base.WaveRead
import BibiCore.Base.WaveWrite
import BibiCore.Tts.WavEncoder
import BibiCore.Stt.WavFile
import BibiCore.Stt.Upload
import BibiCore.Session.SpokenText
import BibiCore.Session.Recital
import BibiCore.Site.AnswerTurns
import BibiCore.Site.ShownTranscript
import BibiCore.Base.Traverse
